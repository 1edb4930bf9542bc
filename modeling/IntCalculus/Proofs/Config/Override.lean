/-
Fields and the variables that set them.

Each of the five fields of a configuration has a variable in the environment, with words of
its own.  The field follows its variable when it takes the value of the word that the
variable is set to, and stays as it was when the variable is not set or its text is no word.
Four of the fields do so in every environment.  The debug flag does not: a text that is no
word for a truth value turns it off, which shows where the flag was on.

The statement this file exists for is `override_follows_iff`.
-/
import IntCalculus.Proofs.Config.Precedence

namespace IntCalculus
namespace Config

/-- What a field is `after` the variables were looked at is the value of the word that its
variable is set to, or what it was `before` if there is no such word. -/
structure Follows {α : Type} (s : Surroundings) (name : String) (read : String → Option α)
    (before after : α) : Prop where
  word : ∀ text a, s.valueOf? name = some text → read text = some a → after = a
  noWord : ∀ text, s.valueOf? name = some text → read text = none → after = before
  unset : s.valueOf? name = none → after = before

theorem setting_eq_of_valueOf? {α : Type} {s : Surroundings} {name text : String}
    (h : s.valueOf? name = some text) (read : String → Option α) :
    setting s name read = read text := by
  rw [setting, h]
  rfl

theorem follows_getD {α : Type} (s : Surroundings) (name : String) (read : String → Option α)
    (before : α) : Follows s name read before ((setting s name read).getD before) where
  word text a htext ha := by
    rw [setting_eq_of_valueOf? htext, ha]
    rfl
  noWord text htext hnone := by
    rw [setting_eq_of_valueOf? htext, hnone]
    rfl
  unset hunset := by
    rw [setting, hunset]
    rfl

/-! ## The debug flag -/

variable {s : Surroundings} {config : Config}

theorem override_debug_of_noWord (h : s.DebugIsNoWord) : (override s config).debug = false := by
  rw [override_of_debugIsNoWord h]

theorem override_debug_eq_getD (h : ¬ (s.DebugIsNoWord ∧ config.debug = true)) :
    (override s config).debug = (setting s "SYMDIFF_DEBUG" lenientBool?).getD config.debug := by
  by_cases hword : s.DebugIsNoWord
  · have hsetting : setting s "SYMDIFF_DEBUG" lenientBool? = none := overrides_debug_eq_none hword
    have hoff : config.debug = false := Bool.eq_false_iff.mpr fun hon => h ⟨hword, hon⟩
    rw [override_debug_of_noWord hword, hsetting, hoff]
    rfl
  · rw [override_eq_overrides_applyTo hword]
    rfl

theorem follows_debug_iff :
    Follows s "SYMDIFF_DEBUG" lenientBool? config.debug (override s config).debug ↔
      ¬ (s.DebugIsNoWord ∧ config.debug = true) := by
  constructor
  · rintro h ⟨⟨text, htext, hnone⟩, hon⟩
    have hkept := h.noWord text htext hnone
    rw [override_debug_of_noWord ⟨text, htext, hnone⟩, hon] at hkept
    exact Bool.false_ne_true hkept
  · intro h
    rw [override_debug_eq_getD h]
    exact follows_getD _ _ _ _

/-! ## All fields -/

/-- In every environment four fields of a configuration follow their variables, and texts
that are no words change nothing.  The debug flag follows its variable too, except that a
text that is no word for a truth value turns the flag off where it was on. -/
theorem override_follows_iff (s : Surroundings) (config : Config) :
    Follows s "SYMDIFF_OVERFLOW" OverflowPolicy.lenient? config.simplify.overflow
        (override s config).simplify.overflow ∧
      Follows s "SYMDIFF_LIKE_TERMS" LikeTerms.lenient? config.simplify.likeTerms
        (override s config).simplify.likeTerms ∧
      Follows s "SYMDIFF_LOG_LEVEL" LogLevel.lenient? config.level (override s config).level ∧
      Follows s "SYMDIFF_OUTPUT" OutputFormat.lenient? config.format (override s config).format ∧
      (Follows s "SYMDIFF_DEBUG" lenientBool? config.debug (override s config).debug ↔
        ¬ (s.DebugIsNoWord ∧ config.debug = true)) ∧
      (s.DebugIsNoWord → (override s config).debug = false) :=
  ⟨follows_getD _ _ _ _, follows_getD _ _ _ _, follows_getD _ _ _ _, follows_getD _ _ _ _,
    follows_debug_iff, override_debug_of_noWord⟩

/-- Surroundings in which a candidate file turns debugging on and sets a level, and the
environment has texts for both that are no words. -/
def muddledSurroundings : Surroundings where
  environment := [("SYMDIFF_DEBUG", "maybe"), ("SYMDIFF_LOG_LEVEL", "loud")]
  directory := "/work"
  home := none
  files := fun path =>
    if path = "/work/.symdiff.toml" then .file "[logging]\nlevel = \"info\"\ndebug = true\n"
    else .missing .notFound

/-- The level stays what it was in the file, and the debug flag does not. -/
theorem override_muddledSurroundings :
    lenientBool? "maybe" = none ∧
      ofCandidates muddledSurroundings = .ok ⟨{}, .info, true, .text⟩ ∧
      load muddledSurroundings = .ok ⟨{}, .info, false, .text⟩ ∧
      ¬ Follows muddledSurroundings "SYMDIFF_DEBUG" lenientBool? true
        (override muddledSurroundings ⟨{}, .info, true, .text⟩).debug := by
  have hword : lenientBool? "maybe" = none := by decide +kernel
  refine ⟨hword, by decide +kernel, by decide +kernel, fun h => ?_⟩
  have hkept := h.noWord "maybe" rfl hword
  rw [override_debug_of_noWord ⟨"maybe", rfl, hword⟩] at hkept
  exact Bool.false_ne_true hkept

end Config
end IntCalculus
