/-
Which source decides a field of the configuration.

The sources are listed by priority: the flags of the command line, the variables of
the environment, one file, the defaults.  The first two set some of the fields and
leave the others alone, which makes them layers, and the listed order lays the flags
over the variables and these over the file.

The program departs from the order twice.  A file that is named on the command line or
by `SYMDIFF_CONFIG` is taken without the variables; and `SYMDIFF_DEBUG` set to a text
that is no word is not passed over, but turns debugging off.

The statement this file exists for is `configuration_precedence_iff`, which says when
the listed order decides all the same.
-/
import IntCalculus.Command.Run
import IntCalculus.Proofs.Outcome
import Mathlib

namespace IntCalculus
namespace Config

/-! ## Layers -/

/-- The fields that one source sets. -/
structure Layer where
  overflow : Option OverflowPolicy := none
  likeTerms : Option LikeTerms := none
  level : Option LogLevel := none
  debug : Option Bool := none
  format : Option OutputFormat := none

namespace Layer

/-- The configuration with the fields replaced that the layer sets. -/
def applyTo (layer : Layer) (config : Config) : Config where
  simplify :=
    { overflow := layer.overflow.getD config.simplify.overflow
      likeTerms := layer.likeTerms.getD config.simplify.likeTerms }
  level := layer.level.getD config.level
  debug := layer.debug.getD config.debug
  format := layer.format.getD config.format

/-- A field that is set by the lower source, and not by the upper one, is set to what
it was. -/
def Hidden {α : Type} (upper lower : Option α) (a : α) : Prop :=
  ∀ b, lower = some b → upper = none → b = a

/-- Below the upper layer it cannot be seen whether the lower one was applied. -/
structure Hides (upper lower : Layer) (config : Config) : Prop where
  overflow : Hidden upper.overflow lower.overflow config.simplify.overflow
  likeTerms : Hidden upper.likeTerms lower.likeTerms config.simplify.likeTerms
  level : Hidden upper.level lower.level config.level
  debug : Hidden upper.debug lower.debug config.debug
  format : Hidden upper.format lower.format config.format

theorem getD_eq_getD_iff_hidden {α : Type} {upper lower : Option α} {a : α} :
    upper.getD a = upper.getD (lower.getD a) ↔ Hidden upper lower a := by
  cases upper with
  | some b =>
    refine iff_of_true rfl ?_
    intro _ _ hupper
    cases hupper
  | none =>
    cases lower with
    | none =>
      refine iff_of_true rfl ?_
      intro _ hlower _
      cases hlower
    | some b =>
      constructor
      · rintro rfl _ hb _
        exact (Option.some.inj hb).symm
      · intro h
        exact (h b rfl rfl).symm

theorem applyTo_eq_iff_hides {upper lower : Layer} {config : Config} :
    upper.applyTo config = upper.applyTo (lower.applyTo config) ↔ upper.Hides lower config := by
  simp only [applyTo, Config.mk.injEq, Options.mk.injEq, getD_eq_getD_iff_hidden]
  constructor
  · rintro ⟨⟨hoverflow, hlikeTerms⟩, hlevel, hdebug, hformat⟩
    exact ⟨hoverflow, hlikeTerms, hlevel, hdebug, hformat⟩
  · intro h
    exact ⟨⟨h.overflow, h.likeTerms⟩, h.level, h.debug, h.format⟩

theorem applyTo_debug_iff {layer : Layer} {config : Config} {debug : Bool} :
    layer.applyTo { config with debug := debug } = layer.applyTo config ↔
      (layer.debug = none → debug = config.debug) := by
  simp only [applyTo, Config.mk.injEq, true_and, and_true]
  cases layer.debug with
  | none => exact ⟨fun h _ => h, fun h => h rfl⟩
  | some b =>
    refine iff_of_true rfl ?_
    intro hnone
    cases hnone

end Layer
end Config

/-! ## Flags and variables -/

open Config (Layer)

/-- The fields that the flags of a command line set. -/
def Command.Invocation.flags (invocation : Command.Invocation) : Layer where
  overflow := invocation.overflow
  likeTerms := invocation.likeTerms
  level := invocation.level
  debug := if invocation.debug then some true else none
  format := invocation.format

theorem Command.override_eq_flags_applyTo (invocation : Command.Invocation) (config : Config) :
    Command.override invocation config = invocation.flags.applyTo config := by
  unfold Command.override Command.Invocation.flags Layer.applyTo
  cases invocation.debug <;> rfl

/-- The fields that the variables of the environment set, each to a word of its kind. -/
def Surroundings.overrides (s : Surroundings) : Layer where
  overflow := Config.setting s "SYMDIFF_OVERFLOW" OverflowPolicy.lenient?
  likeTerms := Config.setting s "SYMDIFF_LIKE_TERMS" LikeTerms.lenient?
  level := Config.setting s "SYMDIFF_LOG_LEVEL" LogLevel.lenient?
  debug := Config.setting s "SYMDIFF_DEBUG" lenientBool?
  format := Config.setting s "SYMDIFF_OUTPUT" OutputFormat.lenient?

/-- `SYMDIFF_DEBUG` is set to a text that is no word for a truth value. -/
def Surroundings.DebugIsNoWord (s : Surroundings) : Prop :=
  ∃ text, s.valueOf? "SYMDIFF_DEBUG" = some text ∧ lenientBool? text = none

namespace Config

variable {s : Surroundings}

theorem override_debug (s : Surroundings) (config : Config) :
    (override s config).debug =
      match s.valueOf? "SYMDIFF_DEBUG" with
      | some text => (lenientBool? text).getD false
      | none => config.debug := rfl

theorem override_eq_of_debug {config : Config} {debug : Bool}
    (h : (override s config).debug = debug) :
    override s config = { s.overrides.applyTo config with debug := debug } := by
  rw [← h]
  rfl

theorem override_eq_overrides_applyTo (h : ¬ s.DebugIsNoWord) (config : Config) :
    override s config = s.overrides.applyTo config := by
  refine override_eq_of_debug ?_
  show _ = ((s.valueOf? "SYMDIFF_DEBUG").bind lenientBool?).getD config.debug
  rw [override_debug]
  cases hvalue : s.valueOf? "SYMDIFF_DEBUG" with
  | none => rfl
  | some text =>
    cases hword : lenientBool? text with
    | none => exact absurd ⟨text, hvalue, hword⟩ h
    | some b =>
      show (lenientBool? text).getD false = (lenientBool? text).getD config.debug
      rw [hword]
      rfl

theorem override_of_debugIsNoWord (h : s.DebugIsNoWord) (config : Config) :
    override s config = { s.overrides.applyTo config with debug := false } := by
  obtain ⟨text, hvalue, hword⟩ := h
  refine override_eq_of_debug ?_
  rw [override_debug, hvalue]
  show (lenientBool? text).getD false = false
  rw [hword]
  rfl

theorem overrides_debug_eq_none (h : s.DebugIsNoWord) : s.overrides.debug = none := by
  obtain ⟨text, hvalue, hword⟩ := h
  show (s.valueOf? "SYMDIFF_DEBUG").bind lenientBool? = none
  rw [hvalue]
  exact hword

/-! ## The selected file -/

/-- The file named, if there is one. -/
def namedFile? (s : Surroundings) (named : Option String) : Option String :=
  named.filter fun path => (s.files path).isFile

/-- The configuration in the file that is read, or the default one if none is. -/
def selected (s : Surroundings) (named : Option String) : Except Failure Config :=
  match namedFile? s named with
  | some path => ofFile s.files path
  | none => ofCandidates s

theorem loadNamed_eq_ok {named : Option String} {config : Config}
    (h : loadNamed s named = .ok config) :
    ∃ file, selected s named = .ok file ∧
      ((namedFile? s named).isSome → config = file) ∧
        (namedFile? s named = none → config = override s file) := by
  cases named with
  | none =>
    obtain ⟨file, hfile, hconfig⟩ := map_eq_ok h
    exact ⟨file, hfile, fun hsome => Bool.noConfusion hsome, fun _ => hconfig⟩
  | some path =>
    unfold loadNamed at h
    cases hisFile : (s.files path).isFile with
    | true =>
      have hnamed : namedFile? s (some path) = some path := Option.filter_some_pos hisFile
      have hread : ofFile s.files path = .ok config := (if_pos hisFile).symm.trans h
      rw [selected, hnamed]
      refine ⟨config, hread, fun _ => rfl, ?_⟩
      intro hnone
      cases hnone
    | false =>
      have hnamed : namedFile? s (some path) = none := Option.filter_some_neg hisFile
      dsimp only at h
      rw [hisFile, if_neg Bool.false_ne_true] at h
      -- A missing file is an error, unless the environment named it.
      split at h
      · cases h
      · obtain ⟨file, hfile, hconfig⟩ := map_eq_ok h
        rw [selected, hnamed]
        exact ⟨file, hfile, fun hsome => Bool.noConfusion hsome, fun _ => hconfig⟩

/-! ## Precedence -/

theorem flags_applyTo_override_iff {flags : Layer} {file : Config} :
    flags.applyTo (override s file) = flags.applyTo (s.overrides.applyTo file) ↔
      ¬ (s.DebugIsNoWord ∧ flags.debug = none ∧ file.debug = true) := by
  by_cases hword : s.DebugIsNoWord
  · -- The layer of the variables leaves the flag alone, the program clears it.
    have hdebug : (s.overrides.applyTo file).debug = file.debug := by
      show s.overrides.debug.getD file.debug = file.debug
      rw [overrides_debug_eq_none hword]
      rfl
    rw [override_of_debugIsNoWord hword, Layer.applyTo_debug_iff, hdebug]
    constructor
    · rintro h ⟨_, hflag, hfile⟩
      exact Bool.false_ne_true ((h hflag).trans hfile)
    · intro h hflag
      cases hfile : file.debug with
      | true => exact absurd ⟨hword, hflag, hfile⟩ h
      | false => rfl
  · rw [override_eq_overrides_applyTo hword]
    exact iff_of_true rfl fun h => hword h.1

/-- Where a configuration comes out, the flags lie over one that was loaded.  A file
that was named is taken as it is, so the listed order decides when the variables are
hidden; otherwise it decides unless `SYMDIFF_DEBUG` turns off what the file turns on. -/
theorem configuration_precedence_iff {s : Surroundings} {invocation : Command.Invocation}
    {config : Config} (h : Command.configuration s invocation = .ok config) :
    ∃ file, selected s invocation.config = .ok file ∧
      ((namedFile? s invocation.config).isSome →
        config = invocation.flags.applyTo file ∧
          (config = invocation.flags.applyTo (s.overrides.applyTo file) ↔
            invocation.flags.Hides s.overrides file)) ∧
      (namedFile? s invocation.config = none →
        config = invocation.flags.applyTo (override s file) ∧
          (config = invocation.flags.applyTo (s.overrides.applyTo file) ↔
            ¬ (s.DebugIsNoWord ∧ invocation.flags.debug = none ∧ file.debug = true))) := by
  obtain ⟨loaded, hloaded, hconfig⟩ := map_eq_ok h
  rw [Command.override_eq_flags_applyTo] at hconfig
  obtain ⟨file, hfile, hnamed, hsearched⟩ := loadNamed_eq_ok hloaded
  refine ⟨file, hfile, fun hsome => ?_, fun hnone => ?_⟩
  · rw [hconfig, hnamed hsome]
    exact ⟨rfl, Layer.applyTo_eq_iff_hides⟩
  · rw [hconfig, hsearched hnone]
    exact ⟨rfl, flags_applyTo_override_iff⟩

/-- Surroundings in which the environment sets two fields, and a candidate file sets one
of them and another. -/
def layeredSurroundings : Surroundings where
  environment := [("SYMDIFF_OVERFLOW", "wrap"), ("SYMDIFF_LIKE_TERMS", " Extended ")]
  directory := "/work"
  home := none
  files := fun path =>
    if path = "/work/.symdiff.toml" then
      .file "[simplify]\noverflow = \"saturating\"\n[logging]\nlevel = \"info\"\n"
    else .missing .notFound

/-- The invocation of `symdiff --overflow checked demo`. -/
def checkedDemo : Command.Invocation where
  debug := false
  level := none
  config := none
  overflow := some .checked
  likeTerms := none
  format := none
  generateConfig := false
  subcommand := some .demo

theorem configuration_checkedDemo :
    Command.configuration layeredSurroundings checkedDemo =
        .ok ⟨⟨.checked, .extended⟩, .info, false, .text⟩ ∧
      ∃ file, selected layeredSurroundings checkedDemo.config = .ok file ∧
        ⟨⟨.checked, .extended⟩, .info, false, .text⟩ =
          checkedDemo.flags.applyTo (layeredSurroundings.overrides.applyTo file) := by
  have hconfig : Command.configuration layeredSurroundings checkedDemo =
      .ok ⟨⟨.checked, .extended⟩, .info, false, .text⟩ := by decide +kernel
  obtain ⟨file, hfile, _, hsearched⟩ := configuration_precedence_iff hconfig
  refine ⟨hconfig, file, hfile, (hsearched rfl).2.mpr ?_⟩
  rintro ⟨⟨text, hvalue, _⟩, _⟩
  cases hvalue

/-- Surroundings in which the environment asks for results to be clamped, and a file that
nobody looks for by itself asks for them to wrap. -/
def clampedSurroundings : Surroundings where
  environment := [("SYMDIFF_OVERFLOW", "saturating")]
  directory := "/work"
  home := none
  files := fun path =>
    if path = "c.toml" then .file "[simplify]\noverflow = \"wrapping\"\n"
    else .missing .notFound

def overflowingSum : String :=
  "\x7b\"Add\":[\x7b\"Constant\":2147483647\x7d,\x7b\"Constant\":1\x7d]\x7d"

def namingFile : Command.Invocation where
  debug := false
  level := none
  config := some "c.toml"
  overflow := none
  likeTerms := none
  format := none
  generateConfig := false
  subcommand := some (.simplify overflowingSum)

/-- The variable is set, no flag is, and the file decides. -/
theorem configuration_namingFile :
    Command.read none ["--config", "c.toml", "simplify", "--expr", overflowingSum] =
        .run namingFile ∧
      namingFile.flags.overflow = none ∧
      clampedSurroundings.overrides.overflow = some .saturating ∧
      selected clampedSurroundings namingFile.config =
        .ok ⟨⟨.wrapping, .pairwise⟩, .warn, false, .text⟩ ∧
      Command.configuration clampedSurroundings namingFile =
        .ok ⟨⟨.wrapping, .pairwise⟩, .warn, false, .text⟩ := by
  refine ⟨by cbv, rfl, by decide +kernel, by decide +kernel, by decide +kernel⟩

end Config
end IntCalculus
