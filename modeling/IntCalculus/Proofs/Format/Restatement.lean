/-
Documents that say the same.

A document is restated when the fields of its objects are put into another order, at
any depth, and when a calculus node without options is given `"options": null`.  The
fields of a restated record are found under their names as before, since no name is
repeated: `restatedRecord_of_restatesAs` is the statement the readers of a format use.
-/
import IntCalculus.Format.Record
import Mathlib

namespace IntCalculus
namespace Json

/-! ## Restating -/

/-- Whether the node of this name may lack options. -/
def isCalculus (kind : String) : Bool := kind == "Derivative" || kind == "Gradient"

mutual
/-- The second document restates the first, which is the record of a calculus node if
`calculus` says so. -/
def RestatesAs (calculus : Bool) : Json → Json → Prop
  | array items, j => ∃ items', RestatesItems items items' ∧ j = array items'
  | object fields, j => ∃ fields' order, RestatesFields fields fields' ∧ j = object order ∧
      (order.Perm fields' ∨ calculus = true ∧ "options" ∉ fields.map Prod.fst ∧
        order.Perm (("options", null) :: fields'))
  | json, j => j = json

def RestatesItems : List Json → List Json → Prop
  | [], items' => items' = []
  | item :: rest, items' => ∃ item' rest', RestatesAs false item item' ∧
      RestatesItems rest rest' ∧ items' = item' :: rest'

/-- The fields are restated one by one, in their order. -/
def RestatesFields : List (String × Json) → List (String × Json) → Prop
  | [], fields' => fields' = []
  | (name, value) :: rest, fields' => ∃ value' rest', RestatesAs (isCalculus name) value value' ∧
      RestatesFields rest rest' ∧ fields' = (name, value') :: rest'
end

/-- The second document restates the first. -/
abbrev Restates : Json → Json → Prop := RestatesAs false

mutual
theorem restatesAs_refl (calculus : Bool) : ∀ json, RestatesAs calculus json json
  | array items => ⟨items, restatesItems_refl items, rfl⟩
  | object fields => ⟨fields, fields, restatesFields_refl fields, rfl, Or.inl (.refl _)⟩
  | null | bool _ | integer _ | decimal _ | string _ | illFormed => rfl

theorem restatesItems_refl : ∀ items, RestatesItems items items
  | [] => rfl
  | item :: rest => ⟨item, rest, restatesAs_refl false item, restatesItems_refl rest, rfl⟩

theorem restatesFields_refl : ∀ fields, RestatesFields fields fields
  | [] => rfl
  | (name, value) :: rest =>
    ⟨value, rest, restatesAs_refl (isCalculus name) value, restatesFields_refl rest, rfl⟩
end

/-! ## Nesting -/

mutual
/-- How many containers stand inside each other. -/
def nesting : Json → Nat
  | array items => nestingItems items + 1
  | object fields => nestingFields fields + 1
  | _ => 0

def nestingItems : List Json → Nat
  | [] => 0
  | item :: rest => max item.nesting (nestingItems rest)

def nestingFields : List (String × Json) → Nat
  | [] => 0
  | (_, value) :: rest => max value.nesting (nestingFields rest)
end

/-! ## Records -/

section

variable {β : Type} {fields order : List (String × β)} {name : String}

theorem lookup_eq_some_iff_mem (h : (fields.map Prod.fst).Nodup) {value : β} :
    fields.lookup name = some value ↔ (name, value) ∈ fields := by
  induction fields with
  | nil => simp
  | cons field rest ih =>
    obtain ⟨first, b⟩ := field
    obtain ⟨hfirst, hrest⟩ := List.nodup_cons.mp h
    rw [List.lookup_cons, List.mem_cons, Prod.mk.injEq]
    by_cases hname : name = first
    · have hmem : (name, value) ∉ rest := by
        intro hmem
        exact hfirst (List.mem_map.mpr ⟨_, hmem, hname⟩)
      simp [hname, hname ▸ hmem, eq_comm]
    · rw [beq_false_of_ne hname]
      simp [hname, ih hrest]

theorem lookup_perm (hperm : order.Perm fields) (h : (fields.map Prod.fst).Nodup) :
    order.lookup name = fields.lookup name := by
  have horder : (order.map Prod.fst).Nodup := (hperm.map Prod.fst).nodup_iff.mpr h
  ext value
  rw [lookup_eq_some_iff_mem horder, lookup_eq_some_iff_mem h, hperm.mem_iff]

theorem distinctFields_of_nodup (names : List String) (h : (fields.map Prod.fst).Nodup) :
    distinctFields names fields = true := by
  unfold distinctFields
  rw [List.all_eq_true]
  intro name _
  have hcount := List.nodup_iff_count_le_one.mp h name
  rw [List.count, List.countP_map, List.countP_eq_length_filter] at hcount
  exact decide_eq_true hcount

end

theorem nesting_le_of_lookup {fields : List (String × Json)} {name : String} {value : Json}
    (h : fields.lookup name = some value) : value.nesting ≤ nestingFields fields := by
  induction fields with
  | nil => cases h
  | cons field rest ih =>
    obtain ⟨first, j⟩ := field
    rw [List.lookup_cons] at h
    cases hname : name == first with
    | true =>
      rw [hname] at h
      cases h
      exact Nat.le_max_left _ _
    | false =>
      rw [hname] at h
      exact Nat.le_trans (ih h) (Nat.le_max_right _ _)

theorem RestatesFields.names {fields fields' : List (String × Json)}
    (h : RestatesFields fields fields') : fields'.map Prod.fst = fields.map Prod.fst := by
  induction fields generalizing fields' with
  | nil => rw [h]
  | cons field rest ih =>
    obtain ⟨value', rest', _, hrest, hfields⟩ := h
    rw [hfields, List.map_cons, List.map_cons, ih hrest]

theorem RestatesFields.lookup {fields fields' : List (String × Json)}
    (h : RestatesFields fields fields') (name : String) :
    (fields.lookup name = none ∧ fields'.lookup name = none) ∨
      ∃ value value', fields.lookup name = some value ∧ fields'.lookup name = some value' ∧
        RestatesAs (isCalculus name) value value' := by
  induction fields generalizing fields' with
  | nil =>
    rw [h]
    exact Or.inl ⟨rfl, rfl⟩
  | cons field rest ih =>
    obtain ⟨first, value⟩ := field
    obtain ⟨value', rest', hvalue, hrest, hfields⟩ := h
    rw [hfields, List.lookup_cons, List.lookup_cons]
    by_cases hname : name = first
    · rw [hname, beq_self_eq_true]
      exact Or.inr ⟨value, value', rfl, rfl, hvalue⟩
    · rw [beq_false_of_ne hname]
      exact ih hrest

/-- What is found in a record under the names of another that it restates. -/
structure RestatedRecord (fields order : List (String × Json)) : Prop where
  nodup : (order.map Prod.fst).Nodup
  found : ∀ name value, fields.lookup name = some value →
    ∃ value', order.lookup name = some value' ∧ RestatesAs (isCalculus name) value value'
  absent : ∀ name, fields.lookup name = none →
    order.lookup name = none ∨ order.lookup name = some null

theorem restatedRecord_of_perm {fields fields' order : List (String × Json)}
    (hnodup : (fields.map Prod.fst).Nodup) (h : RestatesFields fields fields')
    (hperm : order.Perm fields') : RestatedRecord fields order := by
  have hnodup' : (fields'.map Prod.fst).Nodup := by
    rw [h.names]
    exact hnodup
  refine ⟨(hperm.map Prod.fst).nodup_iff.mpr hnodup', fun name value hfound => ?_,
    fun name habsent => ?_⟩
  · rw [lookup_perm hperm hnodup']
    cases h.lookup name with
    | inl hnone => cases hnone.1.symm.trans hfound
    | inr hsome =>
      obtain ⟨v, v', hv, hv', hrestates⟩ := hsome
      cases hv.symm.trans hfound
      exact ⟨v', hv', hrestates⟩
  · rw [lookup_perm hperm hnodup']
    cases h.lookup name with
    | inl hnone => exact Or.inl hnone.2
    | inr hsome =>
      obtain ⟨v, _, hv, _⟩ := hsome
      cases habsent.symm.trans hv

theorem restatedRecord_with_options {fields order : List (String × Json)}
    (h : RestatedRecord (("options", null) :: fields) order)
    (hmissing : "options" ∉ fields.map Prod.fst) : RestatedRecord fields order := by
  have hlookup : ∀ name, name ≠ "options" →
      List.lookup name (("options", null) :: fields) = fields.lookup name := by
    intro name hname
    rw [List.lookup_cons, beq_false_of_ne hname]
  refine ⟨h.nodup, fun name value hfound => ?_, fun name habsent => ?_⟩
  · have hname : name ≠ "options" := by
      intro hname
      obtain ⟨before, after, hsplit, _⟩ := List.lookup_eq_some_iff.mp hfound
      exact hmissing (by simp [hsplit, hname])
    exact h.found name value ((hlookup name hname).trans hfound)
  · by_cases hname : name = "options"
    · obtain ⟨value', hfound, hvalue⟩ := h.found name null (by rw [hname]; rfl)
      rw [hfound]
      exact Or.inr (congrArg some hvalue)
    · exact h.absent name ((hlookup name hname).trans habsent)

/-- A restated record with distinct names is a record with the same fields, of which a
calculus node may have `"options": null` besides. -/
theorem restatedRecord_of_restatesAs {calculus : Bool} {fields : List (String × Json)} {j : Json}
    (h : RestatesAs calculus (object fields) j) (hnodup : (fields.map Prod.fst).Nodup) :
    ∃ order, j = object order ∧ RestatedRecord fields order := by
  obtain ⟨fields', order, hfields, hj, hperm⟩ := h
  refine ⟨order, hj, ?_⟩
  cases hperm with
  | inl hperm => exact restatedRecord_of_perm hnodup hfields hperm
  | inr hinserted =>
    obtain ⟨_, hmissing, hperm⟩ := hinserted
    refine restatedRecord_with_options ?_ hmissing
    refine restatedRecord_of_perm (List.nodup_cons.mpr ⟨hmissing, hnodup⟩) ?_ hperm
    exact ⟨null, fields', rfl, hfields, rfl⟩

/-! ## Other documents -/

/-- A node is restated by one of the same kind. -/
theorem restates_node {kind : String} {payload j : Json} (h : (object [(kind, payload)]).Restates j) :
    ∃ payload', j = object [(kind, payload')] ∧ RestatesAs (isCalculus kind) payload payload' := by
  obtain ⟨fields', order, hfields, hj, hperm⟩ := h
  obtain ⟨payload', rest', hpayload, hrest, hfields'⟩ := hfields
  cases hperm with
  | inl hperm =>
    rw [hfields', hrest] at hperm
    rw [List.perm_singleton.mp hperm] at hj
    exact ⟨payload', hj, hpayload⟩
  | inr hinserted => cases hinserted.1

theorem restates_pair {calculus : Bool} {a b j : Json} (h : RestatesAs calculus (array [a, b]) j) :
    ∃ a' b', j = array [a', b'] ∧ a.Restates a' ∧ b.Restates b' := by
  obtain ⟨items', hitems, hj⟩ := h
  obtain ⟨a', rest', ha, hrest, hitems'⟩ := hitems
  obtain ⟨b', nil', hb, hnil, hrest'⟩ := hrest
  rw [hitems', hrest', hnil] at hj
  exact ⟨a', b', hj, ha, hb⟩

theorem restatesItems_strings {names : List String} {items : List Json}
    (h : RestatesItems (names.map string) items) : items = names.map string := by
  induction names generalizing items with
  | nil => exact h
  | cons name rest ih =>
    obtain ⟨item', rest', hitem, hrest, hitems⟩ := h
    rw [hitems, hitem, ih hrest]
    rfl

end Json
end IntCalculus
