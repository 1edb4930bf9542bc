/-
A configuration file that is named.

A path that is given should not be passed over: either the configuration is read from the
file there, or there is none.  A file is read, with an error if it cannot be, and a path where
nothing stands is an error.
Two cases are overlooked, a directory and a missing path that the environment names as
well, and then the run goes on as if no path had been given.  Nothing can be read at such a
path, so a configuration that comes out all the same is the default one or that of another
file.

The statement this file exists for is `loadNamed_readFrom_iff`.
-/
import IntCalculus.Proofs.Config.Precedence

namespace IntCalculus

/-- The environment names the path, up to parts of it that lead nowhere. -/
def Surroundings.NamesConfig (s : Surroundings) (path : String) : Prop :=
  (s.valueOf? "SYMDIFF_CONFIG").any (Path.equivalent path) = true

namespace Config

/-- The configuration was read from the file at the path, and the variables of the
environment may have been applied to it. -/
def ReadFrom (s : Surroundings) (path : String) (config : Config) : Prop :=
  ∃ file, ofFile s.files path = .ok file ∧ (config = file ∨ config = override s file)

/-- A directory stands at the path, or nothing does and the environment names the path. -/
def Overlooked (s : Surroundings) (path : String) : Prop :=
  s.files path = .directory ∨ (∃ reason, s.files path = .missing reason) ∧ s.NamesConfig path

variable {s : Surroundings} {path : String}

theorem loadNamed_of_isFile (h : (s.files path).isFile = true) :
    loadNamed s (some path) = ofFile s.files path := if_pos h

theorem loadNamed_of_missing {reason : FileError} (h : s.files path = .missing reason)
    (hnames : ¬ s.NamesConfig path) :
    loadNamed s (some path) =
      .error ⟨"Specified config file does not exist: " ++ path, none⟩ := by
  have hnamed : (s.valueOf? "SYMDIFF_CONFIG").any (Path.equivalent path) = false :=
    Bool.eq_false_iff.mpr hnames
  unfold loadNamed
  simp only [h, hnamed]
  rfl

/-- Such a path is given in vain. -/
theorem loadNamed_of_overlooked (h : Overlooked s path) :
    loadNamed s (some path) = loadNamed s none := by
  unfold loadNamed
  rcases h with hdirectory | ⟨⟨reason, hmissing⟩, hnames⟩
  · simp only [hdirectory]
    rfl
  · have hnamed : (s.valueOf? "SYMDIFF_CONFIG").any (Path.equivalent path) = true := hnames
    simp only [hmissing, hnamed]
    rfl

theorem not_readFrom_of_overlooked (h : Overlooked s path) (config : Config) :
    ¬ ReadFrom s path config := by
  rintro ⟨file, hfile, _⟩
  unfold ofFile at hfile
  rcases h with hdirectory | ⟨⟨reason, hmissing⟩, _⟩
  · rw [hdirectory] at hfile
    cases hfile
  · rw [hmissing] at hfile
    cases hfile

/-- What is not overlooked is read, or it is an error to name it. -/
theorem readFrom_of_loadNamed {config : Config} (hdevice : ∀ text, s.files path ≠ .device text)
    (hlooked : ¬ Overlooked s path) (h : loadNamed s (some path) = .ok config) :
    ReadFrom s path config := by
  cases hentry : s.files path with
  | file _ | unreadable _ =>
    have hfile : (s.files path).isFile = true := congrArg Entry.isFile hentry
    exact ⟨config, (loadNamed_of_isFile hfile).symm.trans h, Or.inl rfl⟩
  | device text => exact absurd hentry (hdevice text)
  | directory => exact absurd (Or.inl hentry) hlooked
  | missing reason =>
    have hnames : ¬ s.NamesConfig path := fun hnames =>
      hlooked (Or.inr ⟨⟨reason, hentry⟩, hnames⟩)
    cases (loadNamed_of_missing hentry hnames).symm.trans h

/-- Where a file, a directory or nothing stands at the path that is given, every
configuration that comes out was read there, unless the path is overlooked and one comes out
without it. -/
theorem loadNamed_readFrom_iff {s : Surroundings} {path : String}
    (hdevice : ∀ text, s.files path ≠ .device text) :
    ((∀ config, loadNamed s (some path) = .ok config → ReadFrom s path config) ↔
      ¬ (Overlooked s path ∧ ∃ config, loadNamed s none = .ok config)) ∧
    (Overlooked s path → loadNamed s (some path) = loadNamed s none) := by
  refine ⟨⟨?_, ?_⟩, loadNamed_of_overlooked⟩
  · rintro h ⟨hoverlooked, config, hconfig⟩
    rw [← loadNamed_of_overlooked hoverlooked] at hconfig
    exact not_readFrom_of_overlooked hoverlooked config (h config hconfig)
  · intro h config hconfig
    have hlooked : ¬ Overlooked s path := by
      intro hoverlooked
      rw [loadNamed_of_overlooked hoverlooked] at hconfig
      exact h ⟨hoverlooked, config, hconfig⟩
    exact readFrom_of_loadNamed hdevice hlooked hconfig

/-- Surroundings in which a candidate file asks for results to be clamped and another file
asks for them to wrap.  `conf.d` is a directory, and the environment names a file that is
gone. -/
def crowdedSurroundings : Surroundings where
  environment := [("SYMDIFF_CONFIG", "gone.toml")]
  directory := "/work"
  home := none
  files := fun path =>
    if path = "conf.d" then .directory
    else if path = "c.toml" then .file "[simplify]\noverflow = \"wrapping\"\n"
    else if path = "/work/.symdiff.toml" then .file "[simplify]\noverflow = \"saturating\"\n"
    else .missing .notFound

/-- What `c.toml` says. -/
def wrappingConfig : Config := { simplify := { overflow := .wrapping } }

/-- What the candidate file says. -/
def saturatingConfig : Config := { simplify := { overflow := .saturating } }

theorem loadNamed_crowdedSurroundings :
    loadNamed crowdedSurroundings (some "c.toml") = .ok wrappingConfig ∧
      ReadFrom crowdedSurroundings "c.toml" wrappingConfig ∧
      Overlooked crowdedSurroundings "conf.d" ∧
      loadNamed crowdedSurroundings (some "conf.d") = loadNamed crowdedSurroundings none := by
  have hload : loadNamed crowdedSurroundings (some "c.toml") = .ok wrappingConfig := by
    decide +kernel
  have hdirectory : Overlooked crowdedSurroundings "conf.d" := Or.inl rfl
  have hfile : ¬ Overlooked crowdedSurroundings "c.toml" := by
    rintro (h | ⟨⟨reason, h⟩, _⟩) <;> cases h
  refine ⟨hload, ?_, hdirectory, ?_⟩
  · refine (loadNamed_readFrom_iff ?_).1.mpr (fun h => hfile h.1) _ hload
    intro text h
    cases h
  · refine (loadNamed_readFrom_iff ?_).2 hdirectory
    intro text h
    cases h

def simplifyingArguments (path : String) : List String :=
  ["--config", path, "simplify", "--expr", overflowingSum]

def simplifyingWith (path : String) : Command.Invocation := { namingFile with config := some path }

/-- A directory is given, or the path that the environment gives too, and the configuration
is that of the candidate file. -/
theorem configuration_overlookedPaths :
    Command.read (some "gone.toml") (simplifyingArguments "conf.d") =
        .run (simplifyingWith "conf.d") ∧
      Command.configuration crowdedSurroundings (simplifyingWith "conf.d") =
        .ok saturatingConfig ∧
      (¬ ∃ config, ReadFrom crowdedSurroundings "conf.d" config) ∧
      Command.read (some "gone.toml") (simplifyingArguments "gone.toml") =
        .run (simplifyingWith "gone.toml") ∧
      Command.configuration crowdedSurroundings (simplifyingWith "gone.toml") =
        .ok saturatingConfig ∧
      ¬ ∃ config, ReadFrom crowdedSurroundings "gone.toml" config := by
  have hdirectory : Overlooked crowdedSurroundings "conf.d" := Or.inl rfl
  have hmissing : Overlooked crowdedSurroundings "gone.toml" := by
    refine Or.inr ⟨⟨.notFound, rfl⟩, ?_⟩
    unfold Surroundings.NamesConfig
    decide +kernel
  refine ⟨by cbv, by decide +kernel, ?_, by cbv, by decide +kernel, ?_⟩
  · rintro ⟨config, hconfig⟩
    exact not_readFrom_of_overlooked hdirectory config hconfig
  · rintro ⟨config, hconfig⟩
    exact not_readFrom_of_overlooked hmissing config hconfig

end Config
end IntCalculus
