/-
What is written is read back.

Every expression, value, type and set of options is read back from the document that
is written for it and from all restatements of that document.  `Recovers` says so of
one reader and one document.  It is proved along the tree: a node is recovered when its
payload is, an array when its items are, and a record when each field is recovered from
the place its name is at.  The same node may be read inside several containers, so the
room a `Reading` has left is part of the statement.

The statement this file exists for is `toJson_readBack`.
-/
import IntCalculus.Format.Decode
import IntCalculus.Proofs.Format.Restatement
import IntCalculus.Proofs.Node
import Mathlib

namespace IntCalculus

/-! ## Room -/

namespace Reading

/-- Whether so many containers may be entered one inside the other. -/
def Fits (reading : Reading) (n : Nat) : Prop := ∀ room, reading.room = some room → n ≤ room

variable {reading : Reading} {m n : Nat}

theorem fits_document (n : Nat) : document.Fits n := by
  intro room hroom
  cases hroom

theorem fits_text (h : n ≤ 127) : text.Fits n := by
  intro room hroom
  cases hroom
  exact h

theorem Fits.mono (h : reading.Fits n) (hle : m ≤ n) : reading.Fits m :=
  fun room hroom => Nat.le_trans hle (h room hroom)

theorem Fits.inner? (h : reading.Fits (n + 1)) :
    ∃ inside, reading.inner? = some inside ∧ inside.Fits n := by
  unfold Reading.inner?
  cases hroom : reading.room with
  | none =>
    refine ⟨reading, rfl, fun room hsome => ?_⟩
    cases hroom.symm.trans hsome
  | some room =>
    have hle := h room hroom
    cases room with
    | zero => omega
    | succ room =>
      refine ⟨{ reading with room := some room }, rfl, fun room' hroom' => ?_⟩
      cases hroom'
      omega

end Reading

open Json

/-! ## Reading a restatement -/

/-- The reader gives `a` for every restatement of the document whose containers may all
be entered. -/
def Recovers {α : Type} (read : Reading → Json → Option α) (json : Json) (a : α) : Prop :=
  ∀ reading j, json.Restates j → reading.Fits j.nesting → read reading j = some a

/-- The same of the items of an array. -/
def RecoversAll {α : Type} (readAll : Reading → List Json → Option (List α)) (items : List Json)
    (as : List α) : Prop :=
  ∀ reading items', RestatesItems items items' → reading.Fits (nestingItems items' + 1) →
    readAll reading items' = some as

section

variable {α : Type} {read : Reading → Json → Option α}
  {readAll : Reading → List Json → Option (List α)} {a : α}

theorem recovers_object {kind : String} {payload : Json}
    (h : ∀ reading inside j, RestatesAs (isCalculus kind) payload j →
      reading.inner? = some inside → inside.Fits j.nesting →
      read reading (object [(kind, j)]) = some a) :
    Recovers read (object [(kind, payload)]) a := by
  intro reading j hj hfits
  obtain ⟨payload', hj', hpayload⟩ := restates_node hj
  rw [hj'] at hfits ⊢
  have hnesting : (object [(kind, payload')]).nesting = payload'.nesting + 1 := by
    simp [nesting, nestingFields]
  rw [hnesting] at hfits
  obtain ⟨inside, hinside, hfits'⟩ := hfits.inner?
  exact h reading inside payload' hpayload hinside hfits'

theorem recovers_literal {kind : String} {payload : Json}
    (hpayload : ∀ j, RestatesAs (isCalculus kind) payload j → j = payload)
    (hread : ∀ reading inside, reading.inner? = some inside →
      read reading (object [(kind, payload)]) = some a) :
    Recovers read (object [(kind, payload)]) a := by
  refine recovers_object fun reading inside j hj hinside _ => ?_
  rw [hpayload j hj]
  exact hread reading inside hinside

/-- A node with a record is recovered from the fields that are found in the record. -/
theorem recovers_record {kind : String} {fields : List (String × Json)}
    (hnodup : (fields.map Prod.fst).Nodup)
    (h : ∀ reading inside within order, reading.inner? = some inside →
      inside.inner? = some within → RestatedRecord fields order →
      within.Fits (nestingFields order) →
      read reading (object [(kind, object order)]) = some a) :
    Recovers read (object [(kind, object fields)]) a := by
  refine recovers_object fun reading inside j hj hinside hfits => ?_
  obtain ⟨order, hj', hrecord⟩ := restatedRecord_of_restatesAs hj hnodup
  rw [hj'] at hfits ⊢
  obtain ⟨within, hwithin, hfits'⟩ := hfits.inner?
  exact h reading inside within order hinside hwithin hrecord hfits'

theorem recoversAll_nil (hread : ∀ reading, readAll reading [] = reading.inner?.map fun _ => []) :
    RecoversAll readAll [] [] := by
  intro reading items hitems hfits
  obtain ⟨inside, hinside, _⟩ := hfits.inner?
  rw [hitems, hread, hinside]
  rfl

theorem recoversAll_cons
    (hread : ∀ reading j rest, readAll reading (j :: rest) =
      reading.inner?.bind fun inside => (read inside j).bind fun a =>
        (readAll reading rest).bind fun as => some (a :: as))
    {item : Json} {items : List Json} {as : List α} (hitem : Recovers read item a)
    (hitems : RecoversAll readAll items as) : RecoversAll readAll (item :: items) (a :: as) := by
  intro reading items' hrestates hfits
  obtain ⟨item', rest', hitem', hrest', hitems'⟩ := hrestates
  rw [hitems'] at hfits ⊢
  -- The array is entered once for all of its items: the rest has the room the first had.
  have hleft := Nat.le_max_left item'.nesting (nestingItems rest')
  have hright := Nat.le_max_right item'.nesting (nestingItems rest')
  have hrest : reading.Fits (nestingItems rest' + 1) := hfits.mono (Nat.succ_le_succ hright)
  obtain ⟨inside, hinside, hfits'⟩ := hfits.inner?
  rw [hread, hinside, Option.bind_some, hitem inside item' hitem' (hfits'.mono hleft),
    Option.bind_some, hitems reading rest' hrest' hrest]
  rfl

/-- A field is recovered from the place its name is at. -/
theorem Json.RestatedRecord.read_field {fields order : List (String × Json)} {value : Json}
    {reading : Reading} (h : RestatedRecord fields order)
    (hfits : reading.Fits (nestingFields order)) (hvalue : Recovers read value a) (name : String)
    (hfound : fields.lookup name = some value) (hname : isCalculus name = false) :
    (order.lookup name).bind (read reading) = some a := by
  obtain ⟨value', hfound', hrestates⟩ := h.found name value hfound
  rw [hname] at hrestates
  rw [hfound', Option.bind_some]
  exact hvalue reading value' hrestates (hfits.mono (nesting_le_of_lookup hfound'))

end

theorem find_eq_bind {α : Type} {find : List (String × Json) → Option α} {name : String}
    {read : Json → Option α} (hnil : find [] = none)
    (hcons : ∀ n j rest, find ((n, j) :: rest) = if n = name then read j else find rest)
    (fields : List (String × Json)) : find fields = (fields.lookup name).bind read := by
  induction fields with
  | nil => exact hnil
  | cons field rest ih =>
    obtain ⟨first, j⟩ := field
    rw [hcons, List.lookup_cons]
    by_cases hname : first = name
    · rw [if_pos hname, hname, beq_self_eq_true]
      rfl
    · rw [if_neg hname, beq_false_of_ne (Ne.symm hname)]
      exact ih

/-! ## Words and numbers -/

theorem int32?_toInt (c : Int32) : (integer c.toInt).int32? = some c := by
  obtain ⟨hlow, hhigh⟩ := inRange_toInt c
  rw [int32?, if_pos ⟨hlow, hhigh⟩, Int32.ofInt_toInt]

theorem recovers_string (s : String) : Recovers (fun _ => string?) (string s) s := by
  intro reading j hj _
  rw [hj]
  rfl

theorem strings?_ofNames (names : List String) : (ofNames names).strings? = some names := by
  show (names.map string).mapM string? = some names
  induction names with
  | nil => rfl
  | cons name rest ih =>
    rw [List.map_cons, List.mapM_cons, ih]
    rfl

theorem recovers_names (names : List String) : Recovers names? (ofNames names) names := by
  intro reading j hj hfits
  obtain ⟨items, hitems, hj'⟩ := hj
  rw [restatesItems_strings hitems] at hj'
  rw [hj'] at hfits ⊢
  obtain ⟨inside, hinside, _⟩ := hfits.inner?
  rw [names?, hinside, Option.bind_some]
  exact strings?_ofNames names

/-! ## Options -/

theorem OverflowPolicy.ofWord?_word (policy : OverflowPolicy) :
    ofWord? policy.word = some policy := by
  cases policy <;> rfl

theorem LikeTerms.ofWord?_word (likeTerms : LikeTerms) :
    ofWord? likeTerms.word = some likeTerms := by
  cases likeTerms <;> rfl

theorem Options.recovers (options : Options) : Recovers ofJson? options.toJson options := by
  intro reading j hj hfits
  have hnodup : ["like_terms", "overflow"].Nodup := by decide
  obtain ⟨order, hj', hrecord⟩ := restatedRecord_of_restatesAs hj hnodup
  rw [hj'] at hfits ⊢
  obtain ⟨inside, hinside, _⟩ := hfits.inner?
  obtain ⟨_, hoverflow, hword⟩ := hrecord.found "overflow" _ rfl
  obtain ⟨_, hlikeTerms, hword'⟩ := hrecord.found "like_terms" _ rfl
  rw [hword] at hoverflow
  rw [hword'] at hlikeTerms
  rw [ofJson?, hinside, Option.bind_eq_bind, Option.bind_some, record?,
    if_pos (distinctFields_of_nodup _ hrecord.nodup)]
  simp only [Option.bind_eq_bind, Option.bind_some, fieldOr, hoverflow, hlikeTerms, word?,
    OverflowPolicy.ofWord?_word, LikeTerms.ofWord?_word]

theorem Options.read_optional {own : Option Options} {fields order : List (String × Json)}
    {reading : Reading} (h : RestatedRecord fields order)
    (hfits : reading.Fits (nestingFields order))
    (hfound : fields.lookup "options" = own.map toJson) :
    Options.optional? reading (order.lookup "options") = some own := by
  cases own with
  | none =>
    cases h.absent "options" hfound with
    | inl habsent =>
      rw [habsent]
      rfl
    | inr hnull =>
      rw [hnull]
      rfl
  | some options =>
    -- Options that are written are never null, also when they are restated.
    obtain ⟨j, hfound', hrestates⟩ := h.found "options" _ hfound
    have hread := options.recovers reading j hrestates (hfits.mono (nesting_le_of_lookup hfound'))
    obtain ⟨_, inner, _, hj, _⟩ := hrestates
    rw [hj] at hread
    rw [hfound', hj]
    show (ofJson? reading (object inner)).map some = some (some options)
    rw [hread, Option.map_some]

/-! ## Types -/

namespace Ty

theorem listOfField?_of_lookup {reading : Reading} {fields : List (String × Json)}
    {items : List Json} (h : fields.lookup "params" = some (array items)) :
    listOfField? reading fields = listOfJson? reading items := by
  induction fields with
  | nil => cases h
  | cons field rest ih =>
    obtain ⟨name, j⟩ := field
    rw [List.lookup_cons] at h
    by_cases hname : name = "params"
    · rw [hname] at h ⊢
      cases h
      rw [listOfField?]
    · rw [beq_false_of_ne (Ne.symm hname)] at h
      rw [listOfField?, if_neg hname]
      · exact ih h
      · intro _ hparams
        exact absurd hparams hname

theorem ofField?_eq_bind (reading : Reading) (fields : List (String × Json)) :
    ofField? reading fields = (fields.lookup "returns").bind (ofJson? reading) :=
  find_eq_bind (by rw [ofField?]) (fun _ _ _ => by rw [ofField?]) fields

theorem recovers_word {t : Ty} {word : String} (h : ofWord? word = some t) :
    Recovers ofJson? (.string word) t := by
  intro reading j hj _
  rw [hj, ofJson?]
  exact h

theorem recovers_function {params : List Ty} {returns : Ty}
    (hparams : RecoversAll listOfJson? (listToJson params) params)
    (hreturns : Recovers ofJson? returns.toJson returns) :
    Recovers ofJson? (function params returns).toJson (function params returns) := by
  have hnodup : ["params", "returns"].Nodup := by decide
  refine recovers_record hnodup fun reading inside within order hinside hwithin hrecord hfits => ?_
  obtain ⟨_, hfound, items, hitems, harray⟩ := hrecord.found "params" _ rfl
  rw [harray] at hfound
  have hroom := hfits.mono (nesting_le_of_lookup hfound)
  have hreturns' := hrecord.read_field hfits hreturns "returns" rfl rfl
  rw [← ofField?_eq_bind] at hreturns'
  rw [ofJson?, hinside]
  simp only [Option.bind_eq_bind, Option.bind_some, hwithin,
    distinctFields_of_nodup _ hrecord.nodup, if_true, listOfField?_of_lookup hfound,
    hparams within items hitems hroom, hreturns']

mutual
theorem recovers : ∀ t : Ty, Recovers ofJson? t.toJson t
  | .int | .bool | .string | .vector | .unknown => recovers_word rfl
  | .function params returns => recovers_function (recoversAll params) (recovers returns)

theorem recoversAll : ∀ ts : List Ty, RecoversAll listOfJson? (listToJson ts) ts
  | [] => recoversAll_nil fun _ => by rw [listOfJson?]
  | t :: rest => recoversAll_cons (fun _ _ _ => by rw [listOfJson?]; rfl) (recovers t)
      (recoversAll rest)
end

end Ty

/-! ## Expressions and values -/

/-- The name of the node that applies an operator. -/
def Operator.tag : Operator → String
  | plus => "Add"
  | minus => "Sub"
  | times => "Multiply"

/-- The fields of a calculus node, of which the last says what it differentiates by. -/
def calculusFields (f : Expr) (own : Option Options) (name : String) (wrt : Json) :
    List (String × Json) :=
  ("function", f.toJson) :: (Options.field own ++ [(name, wrt)])

theorem calculusFields_found (f : Expr) (own : Option Options) {name : String} (wrt : Json)
    (hname : name = "variable" ∨ name = "variables") :
    ((calculusFields f own name wrt).map Prod.fst).Nodup ∧
      (calculusFields f own name wrt).lookup name = some wrt ∧
      (calculusFields f own name wrt).lookup "options" = own.map Options.toJson := by
  have hnodup : ((calculusFields f own name wrt).map Prod.fst).Nodup := by
    cases own <;> cases hname <;> subst name <;> simp [calculusFields, Options.field]
  cases own <;> cases hname <;> subst name <;> exact ⟨hnodup, rfl, rfl⟩

namespace Expr

theorem toJson_node (operator : Operator) (l r : Expr) :
    (operator.node l r).toJson = object [(operator.tag, array [l.toJson, r.toJson])] := by
  cases operator <;> rfl

theorem ofJson?_node (operator : Operator) (reading : Reading) (l r : Json) :
    ofJson? reading (object [(operator.tag, array [l, r])]) =
      reading.inner?.bind fun inside => inside.inner?.bind fun within =>
        (ofJson? within l).bind fun l => (ofJson? within r).bind fun r =>
          some (operator.node l r) := by
  cases operator <;> rw [Operator.tag, ofJson?] <;> rfl

theorem ofField?_eq_bind (reading : Reading) (name : String) (fields : List (String × Json)) :
    ofField? reading name fields = (fields.lookup name).bind (ofJson? reading) :=
  find_eq_bind (by rw [ofField?]) (fun _ _ _ => by rw [ofField?]) fields

theorem recovers_node (operator : Operator) {l r : Expr} (hl : Recovers ofJson? l.toJson l)
    (hr : Recovers ofJson? r.toJson r) :
    Recovers ofJson? (operator.node l r).toJson (operator.node l r) := by
  rw [toJson_node]
  refine recovers_object fun reading inside j hj hinside hfits => ?_
  obtain ⟨l', r', hj', hl', hr'⟩ := restates_pair hj
  rw [hj'] at hfits ⊢
  obtain ⟨within, hwithin, hfits'⟩ := hfits.inner?
  have hleft : within.Fits l'.nesting := hfits'.mono (Nat.le_max_left _ _)
  have hright : within.Fits r'.nesting := by
    refine hfits'.mono ?_
    show r'.nesting ≤ max l'.nesting (max r'.nesting 0)
    omega
  rw [ofJson?_node, hinside, Option.bind_some, hwithin, Option.bind_some,
    hl within l' hl' hleft, Option.bind_some, hr within r' hr' hright]
  rfl

theorem recovers_neg {e : Expr} (h : Recovers ofJson? e.toJson e) :
    Recovers ofJson? (neg e).toJson (neg e) := by
  refine recovers_object fun reading inside j hj hinside hfits => ?_
  rw [ofJson?, hinside]
  exact congrArg (Option.map neg) (h inside j hj hfits)

end Expr

section

variable {α β : Type} {read : Reading → Json → Option α} {kind : String}

/-- A function literal and a stored function are written alike. -/
theorem recovers_function {params : List String} {body : Expr} {build : List String → Expr → α}
    (hread : ∀ reading inside order, reading.inner? = some inside →
      read reading (object [("Function", object order)]) =
        if distinctFields ["params", "body"] order then
          inside.inner?.bind fun within =>
            ((order.lookup "params").bind (names? within)).bind fun params =>
              (Expr.ofField? within "body" order).bind fun body => some (build params body)
        else none)
    (hbody : Recovers Expr.ofJson? body.toJson body) :
    Recovers read
      (object [("Function", object [("body", body.toJson), ("params", ofNames params)])])
      (build params body) := by
  have hnodup : ["body", "params"].Nodup := by decide
  refine recovers_record hnodup fun reading inside within order hinside hwithin hrecord hfits => ?_
  have hparams := hrecord.read_field hfits (recovers_names params) "params" rfl rfl
  have hbody' := hrecord.read_field hfits hbody "body" rfl rfl
  rw [← Expr.ofField?_eq_bind] at hbody'
  rw [hread reading inside order hinside, if_pos (distinctFields_of_nodup _ hrecord.nodup),
    hwithin, Option.bind_some, hparams, Option.bind_some, hbody', Option.bind_some]

theorem recovers_vector {elements : List Value} {build : List Value → α}
    (hread : ∀ reading inside items, reading.inner? = some inside →
      read reading (object [("Vector", array items)]) =
        (Value.listOfJson? inside items).map build)
    (h : RecoversAll Value.listOfJson? (Value.listToJson elements) elements) :
    Recovers read (object [("Vector", array (Value.listToJson elements))]) (build elements) := by
  refine recovers_object fun reading inside j hj hinside hfits => ?_
  obtain ⟨items, hitems, hj'⟩ := hj
  rw [hj'] at hfits ⊢
  rw [hread reading inside items hinside, h inside items hitems hfits, Option.map_some]

/-- The two calculus nodes differ in the field for what they differentiate by. -/
theorem recovers_calculus {readBy : Reading → Json → Option β} {f : Expr} {own : Option Options}
    {name : String} {wrt : β} {json : Json} {build : Expr → β → Option Options → Expr}
    (hread : ∀ reading inside order, reading.inner? = some inside →
      Expr.ofJson? reading (object [(kind, object order)]) =
        if distinctFields ["function", name, "options"] order then
          inside.inner?.bind fun within =>
            (Expr.ofField? within "function" order).bind fun f =>
              ((order.lookup name).bind (readBy within)).bind fun wrt =>
                (Options.optional? within (order.lookup "options")).bind fun own =>
                  some (build f wrt own)
        else none)
    (hname : name = "variable" ∨ name = "variables")
    (hf : Recovers Expr.ofJson? f.toJson f) (hwrt : Recovers readBy json wrt) :
    Recovers Expr.ofJson? (object [(kind, object (calculusFields f own name json))])
      (build f wrt own) := by
  obtain ⟨hnodup, hfound, hoptions⟩ := calculusFields_found f own json hname
  refine recovers_record hnodup fun reading inside within order hinside hwithin hrecord hfits => ?_
  have hcalculus : isCalculus name = false := by
    cases hname <;> subst name <;> rfl
  have hf' := hrecord.read_field hfits hf "function" rfl rfl
  have hwrt' := hrecord.read_field hfits hwrt name hfound hcalculus
  have hown := Options.read_optional hrecord hfits hoptions
  rw [← Expr.ofField?_eq_bind] at hf'
  rw [hread reading inside order hinside, if_pos (distinctFields_of_nodup _ hrecord.nodup),
    hwithin, Option.bind_some, hf', Option.bind_some, hwrt', Option.bind_some, hown,
    Option.bind_some]

end

mutual
theorem Expr.recovers : ∀ e : Expr, Recovers Expr.ofJson? e.toJson e
  | .constant c => recovers_literal (fun _ h => h) fun _ _ h => by
      rw [Expr.ofJson?, h]
      exact congrArg (Option.map Expr.constant) (int32?_toInt c)
  | .bool _ => recovers_literal (fun _ h => h) fun _ _ h => by rw [Expr.ofJson?, h]; rfl
  | .str _ => recovers_literal (fun _ h => h) fun _ _ h => by rw [Expr.ofJson?, h]; rfl
  | .var _ => recovers_literal (fun _ h => h) fun _ _ h => by rw [Expr.ofJson?, h]; rfl
  | .add l r => Expr.recovers_node .plus (Expr.recovers l) (Expr.recovers r)
  | .sub l r => Expr.recovers_node .minus (Expr.recovers l) (Expr.recovers r)
  | .neg e => Expr.recovers_neg (Expr.recovers e)
  | .mul l r => Expr.recovers_node .times (Expr.recovers l) (Expr.recovers r)
  | .function _ body => recovers_function (fun _ _ _ h => by rw [Expr.ofJson?, h]; rfl)
      (Expr.recovers body)
  | .vector elements => recovers_vector (fun _ _ _ h => by rw [Expr.ofJson?, h]; rfl)
      (Value.recoversAll elements)
  | .derivative f x _ => recovers_calculus (fun _ _ _ h => by rw [Expr.ofJson?, h]; rfl)
      (Or.inl rfl) (Expr.recovers f) (recovers_string x)
  | .gradient f xs _ => recovers_calculus (fun _ _ _ h => by rw [Expr.ofJson?, h]; rfl)
      (Or.inr rfl) (Expr.recovers f) (recovers_names xs)

theorem Value.recovers : ∀ v : Value, Recovers Value.ofJson? v.toJson v
  | .int n => recovers_literal (fun _ h => h) fun _ _ h => by
      rw [Value.ofJson?, h]
      exact congrArg (Option.map Value.int) (int32?_toInt n)
  | .bool _ => recovers_literal (fun _ h => h) fun _ _ h => by rw [Value.ofJson?, h]; rfl
  | .string _ => recovers_literal (fun _ h => h) fun _ _ h => by rw [Value.ofJson?, h]; rfl
  | .function _ body => recovers_function (fun _ _ _ h => by rw [Value.ofJson?, h]; rfl)
      (Expr.recovers body)
  | .vector elements => recovers_vector (fun _ _ _ h => by rw [Value.ofJson?, h]; rfl)
      (Value.recoversAll elements)

theorem Value.recoversAll : ∀ vs : List Value,
    RecoversAll Value.listOfJson? (Value.listToJson vs) vs
  | [] => recoversAll_nil fun _ => by rw [Value.listOfJson?]
  | v :: rest => recoversAll_cons (fun _ _ _ => by rw [Value.listOfJson?]; rfl)
      (Value.recovers v) (Value.recoversAll rest)
end

/-! ## The round trip -/

/-- What is written as the document is read back from it and from its restatements.  A
document at hand may be of any depth, and one that is read from a text may have as many
containers inside each other as a text allows. -/
structure ReadBack {α : Type} (read : Reading → Json → Option α) (json : Json) (a : α) : Prop where
  written : read .document json = some a
  restated : ∀ j, json.Restates j → read .document j = some a
  restatedText : ∀ j, json.Restates j → j.nesting ≤ 127 → read .text j = some a

theorem Recovers.readBack {α : Type} {read : Reading → Json → Option α} {json : Json} {a : α}
    (h : Recovers read json a) : ReadBack read json a where
  written := h .document json (restatesAs_refl false json) (Reading.fits_document _)
  restated j hj := h .document j hj (Reading.fits_document _)
  restatedText j hj hnesting := h .text j hj (Reading.fits_text hnesting)

theorem toJson_readBack :
    (∀ e : Expr, ReadBack Expr.ofJson? e.toJson e) ∧
      (∀ v : Value, ReadBack Value.ofJson? v.toJson v) ∧
      (∀ t : Ty, ReadBack Ty.ofJson? t.toJson t) ∧
      (∀ options : Options, ReadBack Options.ofJson? options.toJson options) :=
  ⟨fun e => e.recovers.readBack, fun v => v.recovers.readBack, fun t => t.recovers.readBack,
    fun options => options.recovers.readBack⟩

/-- A gradient of a function literal, whose body is a derivative.  Neither has options. -/
def nestedCalculus : Expr :=
  .gradient (.function ["x", "y"] (.derivative (.var "x") "y" none)) ["x"] none

/-- The document of `nestedCalculus` with every record turned round and both nodes given
options that are null. -/
def nestedCalculusRestated : Json :=
  object [("Gradient", object [
    ("variables", array [string "x"]),
    ("function", object [("Function", object [
      ("params", array [string "x", string "y"]),
      ("body", object [("Derivative", object [
        ("variable", string "y"),
        ("function", object [("Variable", string "x")]),
        ("options", null)])])])]),
    ("options", null)])]

theorem restates_nestedCalculus : nestedCalculus.toJson.Restates nestedCalculusRestated := by
  have node : ∀ kind payload payload', RestatesAs (isCalculus kind) payload payload' →
      (object [(kind, payload)]).Restates (object [(kind, payload')]) := by
    intro kind payload payload' h
    exact ⟨_, _, ⟨payload', [], h, rfl, rfl⟩, rfl, Or.inl (.refl _)⟩
  have options : ∀ fields fields' : List (String × Json), "options" ∉ fields.map Prod.fst →
      RestatesFields fields fields' →
      RestatesAs true (object fields) (object (("options", null) :: fields').reverse) := by
    intro fields fields' hmissing h
    exact ⟨fields', _, h, rfl, Or.inr ⟨rfl, hmissing, List.reverse_perm _⟩⟩
  have hderivative := node "Derivative" _ _ (options _ _ (by decide)
    (restatesFields_refl [("function", (Expr.var "x").toJson), ("variable", string "y")]))
  have hliteral := node "Function" (object [("body", _), ("params", ofNames ["x", "y"])]) _
    ⟨_, _, ⟨_, _, hderivative, restatesFields_refl _, rfl⟩, rfl, Or.inl (List.reverse_perm _)⟩
  exact node "Gradient" _ _ (options [("function", _), ("variables", ofNames ["x"])] _ (by decide)
    ⟨_, _, hliteral, restatesFields_refl _, rfl⟩)

theorem toJson_readBack_nestedCalculus :
    nestedCalculus.toJson.Restates nestedCalculusRestated ∧
      nestedCalculusRestated.nesting ≤ 127 ∧
      Expr.ofJson? .text nestedCalculusRestated = some nestedCalculus := by
  have hnesting : nestedCalculusRestated.nesting ≤ 127 := by decide
  exact ⟨restates_nestedCalculus, hnesting,
    (toJson_readBack.1 nestedCalculus).restatedText _ restates_nestedCalculus hnesting⟩

end IntCalculus
