/-
Types told apart by their texts.

The text of a type needs no mark at its end.  Its first character tells the kind of the
type, since no two kinds begin alike.  The parameters of a function are read one after the
other: behind each of them stands a comma, if there is another, or the closing parenthesis,
and no type begins with either.  The result stands last and has no parentheses of its own,
so the text of the function ends where that of the result does.

`eq_of_text_append` says so with any characters behind the texts, since a type inside
another one has the rest of the outer text behind it.  The statement this file exists for
is `text_uniquelyDecodable`.
-/
import IntCalculus.Ty

namespace IntCalculus
namespace Ty

/-! ## The characters of a text -/

/-- The character that the text begins with. -/
def initial : Ty → Char
  | int => 'i'
  | bool => 'b'
  | string => 's'
  | function _ _ => '('
  | vector => 'v'
  | unknown => 'u'

theorem initial_ne_closing (t : Ty) : t.initial ≠ ')' := by
  cases t <;> simp only [initial, ne_eq, Char.reduceEq, not_false_eq_true]

/-- Apart from functions, types that begin alike are alike. -/
theorem eq_of_initial_eq {t u : Ty} (h : t.initial = u.initial) (ht : t.initial ≠ '(') :
    t = u := by
  cases t with
  | function ps r => exact absurd rfl ht
  | _ => cases u <;> first | rfl | simp only [initial, Char.reduceEq] at h

theorem toList_text_function (ps : List Ty) (r : Ty) (rest : List Char) :
    (function ps r).text.toList ++ rest =
      '(' :: ((paramsText ps).toList ++ ')' :: (" -> ".toList ++ (r.text.toList ++ rest))) := by
  rw [text, String.toList_append, String.toList_append, String.toList_append, List.append_assoc,
    List.append_assoc, List.append_assoc]
  rfl

theorem toList_text (t : Ty) (rest : List Char) :
    ∃ tail, t.text.toList ++ rest = t.initial :: tail := by
  cases t with
  | function ps r => exact ⟨_, toList_text_function ps r rest⟩
  | _ => exact ⟨_, rfl⟩

/-- What stands behind a parameter: the other ones, each behind a comma, and the closing
parenthesis before the characters `rest`. -/
def behindParam (rest : List Char) : List Ty → List Char
  | [] => ')' :: rest
  | t :: ts => ',' :: ' ' :: (t.text.toList ++ behindParam rest ts)

theorem toList_paramsText_cons (t : Ty) (ts : List Ty) (rest : List Char) :
    (paramsText (t :: ts)).toList ++ ')' :: rest = t.text.toList ++ behindParam rest ts := by
  induction ts generalizing t with
  | nil => rfl
  | cons u ts ih =>
    rw [paramsText, String.toList_append, String.toList_append, List.append_assoc,
      List.append_assoc, ih]
    rfl

/-! ## Telling types apart -/

variable {rest rest' : List Char}

theorem initial_eq_of_text_append {t u : Ty}
    (h : t.text.toList ++ rest = u.text.toList ++ rest') : t.initial = u.initial := by
  obtain ⟨tail, ht⟩ := toList_text t rest
  obtain ⟨tail', hu⟩ := toList_text u rest'
  rw [ht, hu] at h
  exact (List.cons.inj h).1

/-- Parameters cannot end where there is another type. -/
theorem closing_ne_paramsText (t : Ty) (ts : List Ty) :
    ')' :: rest ≠ (paramsText (t :: ts)).toList ++ ')' :: rest' := by
  obtain ⟨tail, ht⟩ := toList_text t (behindParam rest' ts)
  rw [toList_paramsText_cons, ht]
  exact fun h => initial_ne_closing t (List.cons.inj h).1.symm

mutual
theorem eq_of_text_append (t u : Ty) {rest rest' : List Char}
    (h : t.text.toList ++ rest = u.text.toList ++ rest') : t = u ∧ rest = rest' := by
  have hinitial := initial_eq_of_text_append h
  -- The first characters leave a function and a function, or one word twice.
  cases t with
  | function ps r =>
    cases u with
    | function qs s =>
      rw [toList_text_function, toList_text_function] at h
      obtain ⟨hparams, hresult⟩ := eq_of_paramsText_append ps qs (List.cons.inj h).2
      obtain ⟨hr, hrest⟩ := eq_of_text_append r s (List.append_cancel_left hresult)
      exact ⟨by rw [hparams, hr], hrest⟩
    | _ => simp only [initial, Char.reduceEq] at hinitial
  | _ =>
    have htu := eq_of_initial_eq hinitial (by decide)
    rw [← htu] at h
    exact ⟨htu, List.append_cancel_left h⟩

theorem eq_of_paramsText_append (ts us : List Ty) {rest rest' : List Char}
    (h : (paramsText ts).toList ++ ')' :: rest = (paramsText us).toList ++ ')' :: rest') :
    ts = us ∧ rest = rest' := by
  cases ts with
  | nil =>
    cases us with
    | nil => exact ⟨rfl, (List.cons.inj h).2⟩
    | cons u us => exact absurd h (closing_ne_paramsText u us)
  | cons t ts =>
    cases us with
    | nil => exact absurd h.symm (closing_ne_paramsText t ts)
    | cons u us =>
      rw [toList_paramsText_cons, toList_paramsText_cons] at h
      obtain ⟨hfirst, hbehind⟩ := eq_of_text_append t u h
      obtain ⟨hothers, hrest⟩ := eq_of_behindParam ts us hbehind
      exact ⟨by rw [hfirst, hothers], hrest⟩

theorem eq_of_behindParam (ts us : List Ty) {rest rest' : List Char}
    (h : behindParam rest ts = behindParam rest' us) : ts = us ∧ rest = rest' := by
  cases ts with
  | nil =>
    cases us with
    | nil => exact ⟨rfl, (List.cons.inj h).2⟩
    | cons u us => exact absurd (List.cons.inj h).1 (by decide)
  | cons t ts =>
    cases us with
    | nil => exact absurd (List.cons.inj h).1 (by decide)
    | cons u us =>
      have hnext : t.text.toList ++ behindParam rest ts = u.text.toList ++ behindParam rest' us :=
        (List.cons.inj (List.cons.inj h).2).2
      obtain ⟨hfirst, hbehind⟩ := eq_of_text_append t u hnext
      obtain ⟨hothers, hrest⟩ := eq_of_behindParam ts us hbehind
      exact ⟨by rw [hfirst, hothers], hrest⟩
end

/-- Two types have one text only if they are one type.  With further texts behind theirs it
is the same, and the further texts are then one too. -/
theorem text_uniquelyDecodable (t u : Ty) : (t.text = u.text ↔ t = u) ∧
    ∀ rest rest' : String, t.text ++ rest = u.text ++ rest' ↔ t = u ∧ rest = rest' := by
  have hrests : ∀ rest rest' : String,
      t.text ++ rest = u.text ++ rest' ↔ t = u ∧ rest = rest' := by
    intro rest rest'
    constructor
    · intro h
      have hchars := congrArg String.toList h
      rw [String.toList_append, String.toList_append] at hchars
      obtain ⟨htu, hrest⟩ := eq_of_text_append t u hchars
      exact ⟨htu, String.toList_inj.mp hrest⟩
    · rintro ⟨rfl, rfl⟩
      rfl
  refine ⟨⟨fun h => ?_, congrArg text⟩, hrests⟩
  exact ((hrests "" "").mp (by rw [h])).1

-- What takes a function is told apart from what returns one.
example : (function [function [int] int] bool).text = "((int) -> int) -> bool" ∧
    (function [int] (function [int] bool)).text = "(int) -> (int) -> bool" := by decide

end Ty
end IntCalculus
