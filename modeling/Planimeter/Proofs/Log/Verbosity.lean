import Planimeter.Proofs.Log.Filters
/-!
# Flags and the filter

The flags of a command line that ask for more to be logged put a level of their own in place of the
configured one. So more flags let more pass than fewer, but the first may let less pass than none.
-/
namespace Planimeter

namespace Config

/-- The level that a number of flags asks for. -/
def flagLevel? : Nat → Option Level
  | 0 => none
  | 1 => some .info
  | 2 => some .debug
  | _ => some .trace

theorem levelOfFlags_eq (n : Nat) :
    levelOfFlags n = (flagLevel? n).map fun l => Text.lower l.name := by
  match n with
  | 0 => rfl
  | 1 => decide
  | 2 => decide
  | _ + 3 => exact (by decide : some "trace" = some (Text.lower Level.trace.name))

@[simp] theorem flagLevel?_eq_none_iff {n : Nat} : flagLevel? n = none ↔ n = 0 := by
  rcases n with _ | _ | _ | n <;> simp [flagLevel?]

/-- More flags do not ask for a more urgent level. -/
theorem rank_le_of_flagLevel? {n m : Nat} {l l' : Level} (hle : n ≤ m) (h : flagLevel? n = some l)
    (h' : flagLevel? m = some l') : l.rank ≤ l'.rank := by
  rcases n with _ | _ | _ | n <;> rcases m with _ | _ | _ | m <;> simp [flagLevel?] at h h' hle <;>
    subst h h' <;> decide

end Config

namespace Filter

@[simp] theorem ofText?_level (l : Level) :
    ofText? (Text.lower l.name) = .ok (some ⟨[{ limit := some l }]⟩) := by
  cases l <;> decide +kernel

theorem passes_level_iff {l : Level} {e : Event} :
    (Filter.mk [{ limit := some l }]).passes e ↔ e.level.rank ≤ l.rank := by
  simp [passes, decisive?, Directive.applies, Directive.isStatic, Limit.admits]

end Filter

namespace Logger

variable {environment : List (String × String)} {c : Config} {o o' : Overrides} {e : Event}
  {l l' : Level}

/-- The logger of a configuration lets an event pass after what a command line has changed. -/
def LetsPass (environment : List (String × String)) (c : Config) (o : Overrides) (e : Event) :
    Prop := ∃ l, ofConfig environment (c.override o) = .ok l ∧ l.filter.passes e

/-- The variable is not there, or is no list of directives. -/
def GivesNoFilter (environment : List (String × String)) : Prop :=
  ∀ text, environment.reverse.lookup variableName = some text → Filter.ofText? text = .ok none

theorem letsPass_iff : LetsPass environment c o e ↔ ∃ f,
    Filter.choose (environment.reverse.lookup variableName) (c.override o).level = .ok f ∧
      f.passes e := by
  unfold LetsPass ofConfig
  cases Filter.choose (environment.reverse.lookup variableName) (c.override o).level with
  | error fault => simp [bind, Except.bind]
  | ok f => simp [bind, Except.bind, pure, Except.pure]

/-- What is a filter in the environment is the filter, whatever the flags. -/
theorem letsPass_of_environment {text : String} {f : Filter}
    (htext : environment.reverse.lookup variableName = some text)
    (hf : Filter.ofText? text = .ok (some f)) : LetsPass environment c o e ↔ f.passes e := by
  rw [letsPass_iff, htext, Filter.choose_some, hf]
  constructor
  · rintro ⟨f', h, hpasses⟩
    rwa [Except.ok.inj h]
  · exact fun h => ⟨f, rfl, h⟩

/-- Without a filter in the environment the level is that of the configuration after the flags. -/
theorem letsPass_of_givesNoFilter (h : GivesNoFilter environment) :
    LetsPass environment c o e ↔
      ∃ f, Filter.choose none (c.override o).level = .ok f ∧ f.passes e := by
  rw [letsPass_iff]
  cases htext : environment.reverse.lookup variableName with
  | none => rfl
  | some text =>
    rw [Filter.choose_some, h text htext]
    rfl

/-- Flags put their own level in place of the configured one. -/
theorem letsPass_flags (h : GivesNoFilter environment)
    (hl : Config.flagLevel? o.verbose = some l) :
    LetsPass environment c o e ↔ e.level.rank ≤ l.rank := by
  have hlevel : (c.override o).level = Text.lower l.name := by
    simp [Config.override, Config.levelOfFlags_eq, hl]
  have hchoose : Filter.choose none (Text.lower l.name) = .ok ⟨[{ limit := some l }]⟩ := by
    rw [Filter.choose_none, Filter.ofText?_level]
    rfl
  rw [letsPass_of_givesNoFilter h, hlevel, hchoose, ← Filter.passes_level_iff]
  constructor
  · rintro ⟨f, hf, hpasses⟩
    rwa [Except.ok.inj hf]
  · exact fun h => ⟨_, rfl, h⟩

/-- More flags hide an event that fewer let pass exactly if the fewer are none, so that the
configured level counts, the environment does not tell what to log, and the event is less urgent
than the level that the flags ask for. -/
theorem hidden_by_more_flags_iff (hle : o.verbose ≤ o'.verbose)
    (hpass : LetsPass environment c o e) :
    ¬LetsPass environment c o' e ↔
      o.verbose = 0 ∧ GivesNoFilter environment ∧
        ∃ l ∈ Config.flagLevel? o'.verbose, l.rank < e.level.rank := by
  by_cases hno : GivesNoFilter environment
  · cases hl' : Config.flagLevel? o'.verbose with
    | none =>
      have hflags' := Config.flagLevel?_eq_none_iff.1 hl'
      have hlevel : (c.override o').level = (c.override o).level := by
        simp only [Config.override, hflags', Nat.le_zero.1 (hflags' ▸ hle)]
      have hpass' : LetsPass environment c o' e := by
        rw [letsPass_of_givesNoFilter hno] at hpass ⊢
        rwa [hlevel]
      simp [hpass']
    | some l' =>
      rw [letsPass_flags hno hl', Nat.not_le]
      cases hl : Config.flagLevel? o.verbose with
      | none => simp [Config.flagLevel?_eq_none_iff.1 hl, hno]
      | some l =>
        rw [letsPass_flags hno hl] at hpass
        have hrank := Config.rank_le_of_flagLevel? hle hl hl'
        have hne : o.verbose ≠ 0 := fun h => by simp [Config.flagLevel?_eq_none_iff.2 h] at hl
        exact iff_of_false (by omega) fun h => hne h.1
  · obtain ⟨text, htext, hsome⟩ : ∃ text, environment.reverse.lookup variableName = some text ∧
        Filter.ofText? text ≠ .ok none := by
      simpa [GivesNoFilter] using hno
    refine iff_of_false (not_not.2 ?_) fun h => hno h.2.1
    rcases hf : Filter.ofText? text with fault | _ | f
    · obtain ⟨f, hchoose, -⟩ := letsPass_iff.1 hpass
      rw [htext, Filter.choose_some, hf] at hchoose
      contradiction
    · contradiction
    · rw [letsPass_of_environment htext hf] at hpass ⊢
      exact hpass

/-- With a variable that is no list of directives two flags hide what a configured `trace` shows. -/
theorem hidden_by_more_flags_iff_trace :
    let environment := [("RUST_LOG", "h2=loud")]
    let c : Config := { level := "trace" }
    let e : Event := ⟨.trace, "h2::codec", "received", []⟩
    0 ≤ 2 ∧ LetsPass environment c {} e ∧
      (¬LetsPass environment c { verbose := 2 } e ↔
        0 = 0 ∧ GivesNoFilter environment ∧
          ∃ l ∈ Config.flagLevel? 2, l.rank < e.level.rank) := by
  intro environment c e
  have hpass : LetsPass environment c {} e :=
    ⟨⟨⟨[{ limit := some .trace }]⟩, .pretty⟩, by decide +kernel, by decide⟩
  exact ⟨by decide, hpass, hidden_by_more_flags_iff (by decide) hpass⟩

/-- One flag hides an event that a configured `debug` shows. -/
theorem letsPass_not_monotone : ¬∀ (environment : List (String × String)) (c : Config)
    (o o' : Overrides) (e : Event), o.verbose ≤ o'.verbose → LetsPass environment c o e →
      LetsPass environment c o' e := by
  intro h
  have hpass : LetsPass [] { level := "debug" } {} alreadyInstalled :=
    ⟨⟨⟨[{ limit := some .debug }]⟩, .pretty⟩, by decide +kernel, by decide⟩
  obtain ⟨l, hl, hpasses⟩ := h [] _ {} { verbose := 1 } _ (by decide) hpass
  have hlogger : ofConfig [] ({ level := "debug" : Config}.override { verbose := 1 }) =
      .ok ⟨⟨[{ limit := some .info }]⟩, .pretty⟩ := by decide +kernel
  obtain rfl := Except.ok.inj (hlogger.symm.trans hl)
  revert hpasses
  decide

end Logger

end Planimeter
