import Polyglot.Json.Writer
import Polyglot.Record.Decode
import Polyglot.Record.Encode

/-!
This module contains the way of records into JSON values and back. Numbers that are not finite are
lost on the way, as they have no JSON form. Everything else comes back as it was.
-/

namespace Polyglot

namespace Json

mutual

/--
The value that is written for `j`: numbers that are not finite become null.
-/
def written : Json → Json
  | real x => if x.isFinite then real x else null
  | arr items => arr (writtenItems items)
  | obj fields => obj (writtenFields fields)
  | j => j

def writtenItems : List Json → List Json
  | [] => []
  | item :: items => written item :: writtenItems items

def writtenFields : List (String × Json) → List (String × Json)
  | [] => []
  | (key, value) :: fields => (key, written value) :: writtenFields fields

end

theorem writtenFields_eq (fields : List (String × Json)) :
    writtenFields fields = fields.map fun field => (field.1, field.2.written) := by
  induction fields with
  | nil => rfl
  | cons field fields ih => rw [writtenFields, List.map_cons, ih]

mutual

theorem render_written (j : Json) : render j.written = render j := by
  cases j with
  | real x =>
    rw [written]
    split
    case isTrue => rfl
    case isFalse h => rw [render, render, realText, if_neg h]
  | arr items => rw [written, render, render, renderItems_written items]
  | obj fields => rw [written, render, render, renderFields_written fields]
  | _ => rfl

theorem renderItems_written (items : List Json) :
    renderItems (writtenItems items) = renderItems items := by
  cases items with
  | nil => rfl
  | cons item items =>
    rw [writtenItems, renderItems, renderItems, render_written item, renderItems_written items]

theorem renderFields_written (fields : List (String × Json)) :
    renderFields (writtenFields fields) = renderFields fields := by
  cases fields with
  | nil => rfl
  | cons field fields =>
    rw [writtenFields, renderFields, renderFields, render_written field.2,
      renderFields_written fields]

end

/-! Fields -/

theorem lookup?_cons (key : String) (value : Json) (fields : List (String × Json))
    (name : String) :
    lookup? ((key, value) :: fields) name =
      (lookup? fields name).or (if key = name then some value else none) := by
  unfold lookup?
  rw [List.reverse_cons, List.find?_append, Option.map_or]
  by_cases h : key = name
  · simp [h]
  · simp [h]

theorem lookup?_of_notMem {fields : List (String × Json)} {name : String}
    (h : name ∉ fields.map Prod.fst) : lookup? fields name = none := by
  induction fields with
  | nil => rfl
  | cons field fields ih =>
    rw [List.map_cons, List.mem_cons, not_or] at h
    rw [lookup?_cons, ih h.2, if_neg (Ne.symm h.1)]
    rfl

theorem map_lookupD_zip {names : List String} {values : List Json} (hnodup : names.Nodup)
    (hlength : names.length = values.length) :
    names.map (lookupD (names.zip values)) = values := by
  induction names generalizing values with
  | nil => exact (List.length_eq_zero_iff.1 hlength.symm).symm
  | cons name names ih =>
    cases values with
    | nil => cases hlength
    | cons value values =>
      rw [List.nodup_cons] at hnodup
      have hnames : (names.zip values).map Prod.fst = names :=
        List.map_fst_zip (Nat.le_of_eq (Nat.succ.inj hlength))
      have hfirst : lookupD ((name, value) :: names.zip values) name = value := by
        rw [lookupD, lookup?_cons, lookup?_of_notMem (hnames.symm ▸ hnodup.1), if_pos rfl]
        rfl
      have hrest : names.map (lookupD ((name, value) :: names.zip values)) = values := by
        refine Eq.trans (List.map_congr_left ?_) (ih hnodup.2 (Nat.succ.inj hlength))
        intro other hother
        have hne : name ≠ other := by
          rintro rfl
          exact hnodup.1 hother
        rw [lookupD, lookup?_cons, if_neg hne, Option.or_none, lookupD]
      rw [List.zip_cons_cons, List.map_cons, hfirst, hrest]

/--
The values of a record are found under their names.
-/
theorem record?_written {names : List String} {values : List Json} (hnodup : names.Nodup)
    (hlength : names.length = values.length) :
    record? names (obj (names.zip values)).written = some (values.map written) := by
  have hfields : writtenFields (names.zip values) = names.zip (values.map written) := by
    rw [writtenFields_eq, List.zip_map_right]
    rfl
  rw [written, hfields, record?, map_lookupD_zip hnodup (by rw [List.length_map, hlength])]

end Json

open Json

theorem isSome_mapM_cons {f : α → Option β} {a : α} {as : List α} :
    ((a :: as).mapM f).isSome ↔ (f a).isSome ∧ (as.mapM f).isSome := by
  rw [List.mapM_cons]
  cases f a with
  | none => simp
  | some b =>
    cases as.mapM f with
    | none => simp
    | some bs => simp

section Values

@[simp]
theorem str?_written (s : String) : str? (written (str s)) = some s := rfl

@[simp]
theorem bool?_written (b : Bool) : bool? (written (bool b)) = some b := rfl

@[simp]
theorem natBelow?_written {bound n : Nat} (h : n < bound) :
    natBelow? bound (written (nat n)) = some n := by
  have hvalue : written (nat n) = int n := rfl
  rw [hvalue, natBelow?, if_pos]
  · rfl
  · exact ⟨Int.natCast_nonneg n, h⟩

@[simp]
theorem word?_written (w : UInt32) : word? (written (word w)) = some w := by
  rw [word?, word, natBelow?_written w.toNat_lt, Option.map_some, UInt32.ofNat_toNat]

variable {α : Type} {encode : α → Json} {decode : Json → Option α}

theorem nullable?_written {o : Option α}
    (h : ∀ a ∈ o, decode (encode a).written = some a ∧ (encode a).written ≠ null) :
    nullable? decode (ofOption encode o).written = some o := by
  cases o with
  | none => rfl
  | some a =>
    obtain ⟨hdecode, hnull⟩ := h a rfl
    unfold nullable?
    split
    case h_1 heq => exact absurd heq hnull
    case h_2 => rw [ofOption, hdecode, Option.map_some]

@[simp]
theorem nullable?_str_written (o : Option String) :
    nullable? str? (ofOption str o).written = some o :=
  nullable?_written fun _ _ => ⟨rfl, nofun⟩

@[simp]
theorem nullable?_word_written (o : Option UInt32) :
    nullable? word? (ofOption word o).written = some o :=
  nullable?_written fun w _ => ⟨word?_written w, nofun⟩

theorem mapM_written {items : List α} (h : ∀ a ∈ items, decode (encode a).written = some a) :
    (writtenItems (items.map encode)).mapM decode = some items := by
  induction items with
  | nil => rfl
  | cons a items ih =>
    rw [List.forall_mem_cons] at h
    rw [List.map_cons, writtenItems, List.mapM_cons, h.1, ih h.2]
    rfl

theorem list?_written {items : List α} (h : ∀ a ∈ items, decode (encode a).written = some a) :
    list? decode (ofList encode items).written = some items := by
  unfold list? ofList
  rw [written, arr?, Option.bind_some, mapM_written h]

theorem isSome_list?_written {items : List α} :
    (list? decode (ofList encode items).written).isSome ↔
      ∀ a ∈ items, (decode (encode a).written).isSome := by
  unfold list? ofList
  rw [written, arr?, Option.bind_some]
  induction items with
  | nil => simp [writtenItems]
  | cons a items ih =>
    rw [List.map_cons, writtenItems, isSome_mapM_cons, ih, List.forall_mem_cons]

@[simp]
theorem list?_str_written (items : List String) :
    list? str? (ofList str items).written = some items :=
  list?_written fun _ _ => rfl

end Values

@[simp]
theorem Position.ofJson?_written (p : Position) : Position.ofJson? p.toJson.written = some p := by
  have hjson : p.toJson = obj (["line", "column"].zip [word p.line, word p.column]) := rfl
  rw [Position.ofJson?, hjson, record?_written (by decide) rfl]
  simp

/-! Arguments -/

mutual

/--
Whether `p` holds of the kind and of every kind inside of it.
-/
def ArgumentKind.Everywhere (p : ArgumentKind → Prop) : ArgumentKind → Prop
  | .object properties => p (.object properties) ∧ propertiesEverywhere p properties
  | .array elements => p (.array elements) ∧ argumentsEverywhere p elements
  | kind => p kind

def argumentEverywhere (p : ArgumentKind → Prop) : Located ArgumentKind → Prop
  | ⟨kind, _, _⟩ => kind.Everywhere p

def argumentsEverywhere (p : ArgumentKind → Prop) : List (Located ArgumentKind) → Prop
  | [] => True
  | a :: as => argumentEverywhere p a ∧ argumentsEverywhere p as

def propertiesEverywhere (p : ArgumentKind → Prop) : List (String × Located ArgumentKind) → Prop
  | [] => True
  | (_, a) :: rest => argumentEverywhere p a ∧ propertiesEverywhere p rest

end

namespace ArgumentKind

/--
The properties of an object are ordered by key, and each key occurs once.
-/
def IsOrdered : ArgumentKind → Prop
  | object properties => (properties.map (·.1)).Pairwise (· < ·)
  | _ => True

def IsFinite : ArgumentKind → Prop
  | number value => value.isFinite
  | _ => True

end ArgumentKind

theorem insertProperty_append {key : String} {value : α} {properties : List (String × α)}
    (h : ∀ k ∈ properties.map (·.1), k < key) :
    insertProperty key value properties = properties ++ [(key, value)] := by
  induction properties with
  | nil => rfl
  | cons property properties ih =>
    rw [List.map_cons, List.forall_mem_cons] at h
    have hne : key ≠ property.1 := by
      rintro rfl
      exact String.lt_irrefl _ h.1
    rw [insertProperty, if_neg (String.lt_asymm h.1), if_neg hne, ih h.2, List.cons_append]

/--
Properties that are ordered by key stay as they are when they are inserted one by one.
-/
theorem foldl_insertProperty {before properties : List (String × α)}
    (h : ((before ++ properties).map (·.1)).Pairwise (· < ·)) :
    properties.foldl (fun sorted p => insertProperty p.1 p.2 sorted) before =
      before ++ properties := by
  induction properties generalizing before with
  | nil => rw [List.foldl_nil, List.append_nil]
  | cons property properties ih =>
    rw [List.foldl_cons, insertProperty_append, ih]
    · rw [List.append_assoc, List.singleton_append]
    · rwa [List.append_assoc, List.singleton_append]
    · intro k hk
      rw [List.map_append, List.pairwise_append] at h
      exact h.2.2 k hk property.1 List.mem_cons_self

/--
The kind of an argument with the given fields, if its tag is `tag`.
-/
def decodeKind? (fields : List (String × Json)) (tag : String) : Option ArgumentKind :=
  match tag with
  | "string" => (str? (lookupD fields "value")).map .string
  | "number" => (real? (lookupD fields "value")).map .number
  | "boolean" => (bool? (lookupD fields "value")).map .boolean
  | "identifier" => (str? (lookupD fields "name")).map .identifier
  | "object" =>
    match lookup? fields "properties" with
    | some (.obj properties) =>
      (properties.mapM fun p => (decodeArgument? p.2).map (p.1, ·)).map fun properties =>
        .object (properties.foldl (fun sorted p => insertProperty p.1 p.2 sorted) [])
    | _ => none
  | "array" =>
    match lookup? fields "elements" with
    | some (.arr elements) => (elements.mapM decodeArgument?).map .array
    | _ => none
  | "unknown" => (nullable? str? (lookupD fields "label")).map .unknown
  | _ => none

theorem decodeArgument?_obj (fields : List (String × Json)) :
    decodeArgument? (obj fields) = (do
      let tag ← argumentTag? (lookupD fields "type")
      let kind ← decodeKind? fields tag
      let position ← Position.ofJson? (lookupD fields "position")
      let text ← str? (lookupD fields "text")
      return ⟨kind, position, text⟩) := by
  rw [decodeArgument?]
  congr 1
  funext tag
  unfold decodeKind?
  split
  case h_5 =>
    split
    case h_1 properties hlookup =>
      simp only [hlookup]
      rw [List.mapM_subtype (g := fun p => (decodeArgument? p.2).map (p.1, ·)) fun _ _ => rfl,
        List.unattach_attach]
      cases properties.mapM fun p => (decodeArgument? p.2).map (p.1, ·) with
      | none => rfl
      | some properties => rfl
    case h_2 hlookup =>
      cases hvalue : lookup? fields "properties" with
      | none => rfl
      | some value =>
        cases value with
        | obj properties => exact (hlookup properties hvalue).elim
        | _ => rfl
  case h_6 =>
    split
    case h_1 elements hlookup =>
      simp only [hlookup]
      rw [List.mapM_subtype (g := decodeArgument?) fun _ _ => rfl, List.unattach_attach]
      cases elements.mapM decodeArgument? with
      | none => rfl
      | some elements => rfl
    case h_2 hlookup =>
      cases hvalue : lookup? fields "elements" with
      | none => rfl
      | some value =>
        cases value with
        | arr elements => exact (hlookup elements hvalue).elim
        | _ => rfl
  case h_8 => simp [*]
  all_goals rfl

open ArgumentKind (IsOrdered IsFinite)

/--
The fields of an argument as they are written.
-/
def argumentFields (kind : ArgumentKind) (position : Position) (text : String) :
    List (String × Json) :=
  writtenFields (kind.toFields ++ [("position", position.toJson), ("text", str text)])

/--
The tag, the position and the text of an argument are found beside what is particular to its kind,
whatever that is.
-/
theorem decodeArgument?_encodeArgument (kind : ArgumentKind) (position : Position)
    (text : String) :
    decodeArgument? (encodeArgument ⟨kind, position, text⟩).written =
      (decodeKind? (argumentFields kind position text) kind.name).map (⟨·, position, text⟩) := by
  have htag : argumentTag? (lookupD (argumentFields kind position text) "type") =
      some kind.name := by
    cases kind <;> rfl
  have hposition : lookupD (argumentFields kind position text) "position" =
      position.toJson.written := by
    cases kind <;> rfl
  have htext : lookupD (argumentFields kind position text) "text" = str text := by
    cases kind <;> rfl
  have hjson : (encodeArgument ⟨kind, position, text⟩).written =
      obj (argumentFields kind position text) := by
    rw [encodeArgument, written, argumentFields]
  rw [hjson, decodeArgument?_obj, htag, hposition, htext, Position.ofJson?_written]
  cases hkind : decodeKind? (argumentFields kind position text) kind.name with
  | none => simp [hkind]
  | some kind => simp [hkind, str?]

mutual

theorem decodeKind?_written {kind : ArgumentKind} (hordered : kind.Everywhere IsOrdered)
    (hfinite : kind.Everywhere IsFinite) (position : Position) (text : String) :
    decodeKind? (argumentFields kind position text) kind.name = some kind := by
  cases kind with
  | object properties =>
    rw [ArgumentKind.Everywhere] at hordered hfinite
    have hlookup : lookup? (argumentFields (.object properties) position text) "properties" =
        some (obj (writtenFields (encodeProperties properties))) := rfl
    have hsorted := @foldl_insertProperty _ [] properties hordered.1
    rw [ArgumentKind.name, decodeKind?]
    simp only [hlookup]
    rw [mapM_properties_written hordered.2 hfinite.2, Option.map_some, hsorted, List.nil_append]
  | array elements =>
    rw [ArgumentKind.Everywhere] at hordered hfinite
    have hlookup : lookup? (argumentFields (.array elements) position text) "elements" =
        some (arr (writtenItems (encodeArguments elements))) := rfl
    rw [ArgumentKind.name, decodeKind?]
    simp only [hlookup]
    rw [mapM_arguments_written hordered.2 hfinite.2, Option.map_some]
  | number value =>
    have hvalue : lookupD (argumentFields (.number value) position text) "value" =
        if value.isFinite then real value else null := rfl
    have hfinite : value.isFinite := hfinite
    rw [ArgumentKind.name, decodeKind?, hvalue, if_pos hfinite]
    rfl
  | string value => rfl
  | boolean value => rfl
  | identifier name => rfl
  | unknown label =>
    have hlabel : lookupD (argumentFields (.unknown label) position text) "label" =
        (ofOption str label).written := rfl
    rw [ArgumentKind.name, decodeKind?, hlabel, nullable?_str_written, Option.map_some]

theorem decodeArgument?_written {a : Argument} (hordered : argumentEverywhere IsOrdered a)
    (hfinite : argumentEverywhere IsFinite a) :
    decodeArgument? (encodeArgument a).written = some a := by
  cases a with
  | mk kind position text =>
    rw [decodeArgument?_encodeArgument, decodeKind?_written hordered hfinite position text,
      Option.map_some]

theorem mapM_arguments_written {elements : List Argument}
    (hordered : argumentsEverywhere IsOrdered elements)
    (hfinite : argumentsEverywhere IsFinite elements) :
    (writtenItems (encodeArguments elements)).mapM decodeArgument? = some elements := by
  cases elements with
  | nil => rfl
  | cons a elements =>
    rw [encodeArguments, writtenItems, List.mapM_cons,
      decodeArgument?_written hordered.1 hfinite.1,
      mapM_arguments_written hordered.2 hfinite.2]
    rfl

theorem mapM_properties_written {properties : List (String × Argument)}
    (hordered : propertiesEverywhere IsOrdered properties)
    (hfinite : propertiesEverywhere IsFinite properties) :
    ((writtenFields (encodeProperties properties)).mapM fun p =>
      (decodeArgument? p.2).map (p.1, ·)) = some properties := by
  cases properties with
  | nil => rfl
  | cons property properties =>
    rw [encodeProperties, writtenFields, List.mapM_cons,
      decodeArgument?_written hordered.1 hfinite.1,
      mapM_properties_written hordered.2 hfinite.2]
    rfl

end

mutual

theorem isFinite_of_decodeKind? {kind : ArgumentKind} {position : Position} {text : String}
    (h : (decodeKind? (argumentFields kind position text) kind.name).isSome) :
    kind.Everywhere IsFinite := by
  cases kind with
  | object properties =>
    have hlookup : lookup? (argumentFields (.object properties) position text) "properties" =
        some (obj (writtenFields (encodeProperties properties))) := rfl
    rw [ArgumentKind.name, decodeKind?] at h
    simp only [hlookup, Option.isSome_map] at h
    rw [ArgumentKind.Everywhere]
    exact ⟨trivial, isFinite_of_mapM_properties h⟩
  | array elements =>
    have hlookup : lookup? (argumentFields (.array elements) position text) "elements" =
        some (arr (writtenItems (encodeArguments elements))) := rfl
    rw [ArgumentKind.name, decodeKind?] at h
    simp only [hlookup, Option.isSome_map] at h
    rw [ArgumentKind.Everywhere]
    exact ⟨trivial, isFinite_of_mapM_arguments h⟩
  | number value =>
    have hvalue : lookupD (argumentFields (.number value) position text) "value" =
        if value.isFinite then real value else null := rfl
    rw [ArgumentKind.name, decodeKind?, hvalue] at h
    split at h
    case isTrue hfinite => exact hfinite
    case isFalse => cases h
  | string value => trivial
  | boolean value => trivial
  | identifier name => trivial
  | unknown label => trivial

theorem isFinite_of_decodeArgument? {a : Argument}
    (h : (decodeArgument? (encodeArgument a).written).isSome) : argumentEverywhere IsFinite a := by
  cases a with
  | mk kind position text =>
    rw [decodeArgument?_encodeArgument, Option.isSome_map] at h
    exact isFinite_of_decodeKind? h

theorem isFinite_of_mapM_arguments {elements : List Argument}
    (h : ((writtenItems (encodeArguments elements)).mapM decodeArgument?).isSome) :
    argumentsEverywhere IsFinite elements := by
  cases elements with
  | nil => trivial
  | cons a elements =>
    rw [encodeArguments, writtenItems, isSome_mapM_cons] at h
    exact ⟨isFinite_of_decodeArgument? h.1, isFinite_of_mapM_arguments h.2⟩

theorem isFinite_of_mapM_properties {properties : List (String × Argument)}
    (h : ((writtenFields (encodeProperties properties)).mapM fun p =>
      (decodeArgument? p.2).map (p.1, ·)).isSome) :
    propertiesEverywhere IsFinite properties := by
  cases properties with
  | nil => trivial
  | cons property properties =>
    rw [encodeProperties, writtenFields, isSome_mapM_cons, Option.isSome_map] at h
    exact ⟨isFinite_of_decodeArgument? h.1, isFinite_of_mapM_properties h.2⟩

end

/-! Records -/

/--
Whether `p` holds of every kind of argument in the chain.
-/
def CallChain.Everywhere (p : ArgumentKind → Prop) (c : CallChain) : Prop :=
  ∀ s ∈ c.segments, argumentsEverywhere p s.arguments

/--
Of a segment everything but the arguments comes back in any case.
-/
theorem Segment.ofJson?_written (s : Segment) :
    Segment.ofJson? s.toJson.written =
      ((writtenItems (encodeArguments s.arguments)).mapM decodeArgument?).map
        ({ s with arguments := · }) := by
  have hjson : s.toJson = obj (["name", "isCall", "args", "position"].zip
      [str s.name, bool s.isCall, arr (encodeArguments s.arguments), s.position.toJson]) := rfl
  have harguments : list? decodeArgument? (arr (encodeArguments s.arguments)).written =
      (writtenItems (encodeArguments s.arguments)).mapM decodeArgument? := by
    rw [written, list?, arr?, Option.bind_some]
  rw [Segment.ofJson?, hjson, record?_written (by decide) rfl]
  cases hread : (writtenItems (encodeArguments s.arguments)).mapM decodeArgument? with
  | none => simp [harguments, hread]
  | some arguments => simp [harguments, hread]

theorem CallChain.ofJson?_written (c : CallChain) :
    CallChain.ofJson? c.toJson.written =
      (list? Segment.ofJson? (ofList Segment.toJson c.segments).written).map
        ({ c with segments := · }) := by
  have hjson : c.toJson = obj (["receiver", "segments", "raw", "file", "start", "end"].zip
      [str c.receiver, ofList Segment.toJson c.segments, str c.raw, str c.file, c.start.toJson,
        c.stop.toJson]) := rfl
  rw [CallChain.ofJson?, hjson, record?_written (by decide) rfl]
  cases hread : list? Segment.ofJson? (ofList Segment.toJson c.segments).written with
  | none => simp [hread]
  | some segments => simp [hread]

namespace CallChain

variable {c : CallChain}

theorem ofJson?_of_isFinite (hordered : c.Everywhere IsOrdered) (hfinite : c.Everywhere IsFinite) :
    CallChain.ofJson? c.toJson.written = some c := by
  rw [CallChain.ofJson?_written, list?_written, Option.map_some]
  intro s hs
  rw [Segment.ofJson?_written, mapM_arguments_written (hordered s hs) (hfinite s hs),
    Option.map_some]

theorem isFinite_of_isSome (h : (CallChain.ofJson? c.toJson.written).isSome) :
    c.Everywhere IsFinite := by
  rw [CallChain.ofJson?_written, Option.isSome_map, isSome_list?_written] at h
  intro s hs
  have hs := h s hs
  rw [Segment.ofJson?_written, Option.isSome_map] at hs
  exact isFinite_of_mapM_arguments hs

end CallChain

@[simp]
theorem Parameter.ofJson?_written (p : Parameter) :
    Parameter.ofJson? p.toJson.written = some p := by
  have hjson : p.toJson = obj
      (["name", "typeAnnotation", "defaultValue", "isRest", "isOptional"].zip
        [str p.name, ofOption str p.typeAnnotation, ofOption str p.defaultValue, bool p.isRest,
          bool p.isOptional]) := rfl
  rw [Parameter.ofJson?, hjson, record?_written (by decide) rfl]
  simp

@[simp]
theorem FunctionDecl.ofJson?_written (f : FunctionDecl) :
    FunctionDecl.ofJson? f.toJson.written = some f := by
  have hjson : f.toJson = obj
      (["name", "qualifiedName", "file", "start", "end", "parameters", "returnType", "isMethod",
        "isStatic", "isExported", "isConstructor", "isAsync", "className", "decorators",
        "bodyStartLine", "bodyEndLine"].zip
        [str f.name, str f.qualifiedName, str f.file, f.start.toJson, f.stop.toJson,
          ofList Parameter.toJson f.parameters, ofOption str f.returnType, bool f.isMethod,
          bool f.isStatic, bool f.isExported, bool f.isConstructor, bool f.isAsync,
          ofOption str f.className, ofList str f.decorators, ofOption word f.bodyStartLine,
          ofOption word f.bodyEndLine]) := rfl
  have hparameters : list? Parameter.ofJson? (ofList Parameter.toJson f.parameters).written =
      some f.parameters :=
    list?_written fun p _ => p.ofJson?_written
  rw [FunctionDecl.ofJson?, hjson, record?_written (by decide) rfl]
  rw [Option.bind_eq_bind, Option.bind_some]
  -- The binds stay closed until every field is read, as they are too many to simplify one by one.
  simp only [List.map_cons, List.map_nil, str?_written, Position.ofJson?_written, hparameters,
    nullable?_str_written, bool?_written, list?_str_written, nullable?_word_written]
  rfl

theorem ClassKind.ofJson?_written (kind : ClassKind) :
    ClassKind.ofJson? (str kind.name).written = some kind := by
  cases kind <;> decide

@[simp]
theorem ClassDecl.ofJson?_written (c : ClassDecl) :
    ClassDecl.ofJson? c.toJson.written = some c := by
  have hjson : c.toJson = obj
      (["name", "kind", "file", "startLine", "endLine", "baseClasses", "methods",
        "isExported"].zip
        [str c.name, str c.kind.name, str c.file, word c.startLine, word c.endLine,
          ofList str c.baseClasses, ofList str c.methods, bool c.isExported]) := rfl
  rw [ClassDecl.ofJson?, hjson, record?_written (by decide) rfl]
  simp [ClassKind.ofJson?_written]

@[simp]
theorem Binding.ofJson?_written (b : Binding) : Binding.ofJson? b.toJson.written = some b := by
  have hjson : b.toJson = obj (["imported", "local", "isDefault", "isNamespace"].zip
      [str b.imported, str b.bound, bool b.isDefault, bool b.isNamespace]) := rfl
  rw [Binding.ofJson?, hjson, record?_written (by decide) rfl]
  simp

theorem list?_bindings_written (bindings : List Binding) :
    list? Binding.ofJson? (ofList Binding.toJson bindings).written = some bindings :=
  list?_written fun b _ => b.ofJson?_written

@[simp]
theorem ImportDecl.ofJson?_written (i : ImportDecl) :
    ImportDecl.ofJson? i.toJson.written = some i := by
  have hjson : i.toJson = obj (["source", "bindings", "line", "isTypeOnly"].zip
      [str i.source, ofList Binding.toJson i.bindings, word i.line, bool i.isTypeOnly]) := rfl
  rw [ImportDecl.ofJson?, hjson, record?_written (by decide) rfl]
  simp [list?_bindings_written]

@[simp]
theorem ExportDecl.ofJson?_written (e : ExportDecl) :
    ExportDecl.ofJson? e.toJson.written = some e := by
  have hjson : e.toJson = obj (["source", "bindings", "line", "isTypeOnly"].zip
      [ofOption str e.source, ofList Binding.toJson e.bindings, word e.line,
        bool e.isTypeOnly]) := rfl
  rw [ExportDecl.ofJson?, hjson, record?_written (by decide) rfl]
  simp [list?_bindings_written]

@[simp]
theorem FallbackCounters.ofJson?_written (c : FallbackCounters) :
    FallbackCounters.ofJson? c.toJson.written = some c := by
  have hjson : c.toJson = obj
      (["unknownArgs", "opaqueReceivers", "depthLimitedChains", "depthLimitedArgs",
        "skippedDeclarations", "truncatedSubtrees"].zip
        [word c.unknownArgs, word c.opaqueReceivers, word c.depthLimitedChains,
          word c.depthLimitedArgs, word c.skippedDeclarations, word c.truncatedSubtrees]) := rfl
  rw [FallbackCounters.ofJson?, hjson, record?_written (by decide) rfl]
  simp

theorem Language.ofJson?_written (language : Language) :
    Language.ofJson? language.toJson.written = some language := by
  cases language <;> decide

/--
What the types of the fields promise: the properties of objects are ordered by key.
-/
structure FileRecord.IsProper (r : FileRecord) : Prop where
  ordered : ∀ c ∈ r.callChains, c.Everywhere IsOrdered

/--
Whether all numbers among the arguments are finite.
-/
def FileRecord.IsFinite (r : FileRecord) : Prop :=
  ∀ c ∈ r.callChains, c.Everywhere ArgumentKind.IsFinite

/--
Of a file everything but the chains comes back in any case.
-/
theorem FileRecord.ofJson?_written (r : FileRecord) :
    FileRecord.ofJson? r.toJson.written =
      (list? CallChain.ofJson? (ofList CallChain.toJson r.callChains).written).map fun callChains =>
        { r with callChains } := by
  have hjson : r.toJson = obj
      (["file", "language", "contentHash", "callChains", "functions", "classes", "imports",
        "exports", "fallbacks", "hasParseErrors"].zip
        [str r.file, r.language.toJson, nat r.contentHash.toNat,
          ofList CallChain.toJson r.callChains, ofList FunctionDecl.toJson r.functions,
          ofList ClassDecl.toJson r.classes, ofList ImportDecl.toJson r.imports,
          ofList ExportDecl.toJson r.exports, r.fallbacks.toJson, bool r.hasParseErrors]) := rfl
  have hfunctions : list? FunctionDecl.ofJson? (ofList FunctionDecl.toJson r.functions).written =
      some r.functions :=
    list?_written fun f _ => f.ofJson?_written
  have hclasses : list? ClassDecl.ofJson? (ofList ClassDecl.toJson r.classes).written =
      some r.classes :=
    list?_written fun c _ => c.ofJson?_written
  have himports : list? ImportDecl.ofJson? (ofList ImportDecl.toJson r.imports).written =
      some r.imports :=
    list?_written fun i _ => i.ofJson?_written
  have hexports : list? ExportDecl.ofJson? (ofList ExportDecl.toJson r.exports).written =
      some r.exports :=
    list?_written fun e _ => e.ofJson?_written
  have hhash : count? (nat r.contentHash.toNat).written = some r.contentHash.toNat :=
    natBelow?_written r.contentHash.toNat_lt
  rw [FileRecord.ofJson?, hjson, record?_written (by decide) rfl]
  cases hread : list? CallChain.ofJson? (ofList CallChain.toJson r.callChains).written with
  | none => simp [Language.ofJson?_written, hhash, hread]
  | some callChains =>
    simp [Language.ofJson?_written, hhash, hread, hfunctions, hclasses, himports, hexports]

/--
A file comes back from the JSON value that is written for it exactly if its numbers are finite.
-/
theorem file_survives_json {r : FileRecord} (hproper : r.IsProper) :
    (FileRecord.ofJson? r.toJson.written = some r ↔ r.IsFinite) ∧
      render r.toJson.written = render r.toJson := by
  refine ⟨?_, render_written _⟩
  rw [FileRecord.ofJson?_written]
  constructor
  · intro h c hc
    have hsome := Option.isSome_of_eq_some h
    rw [Option.isSome_map, isSome_list?_written] at hsome
    exact CallChain.isFinite_of_isSome (hsome c hc)
  · intro hfinite
    rw [list?_written, Option.map_some]
    intro c hc
    exact CallChain.ofJson?_of_isFinite (hproper.ordered c hc) (hfinite c hc)

def nestedArguments : FileRecord where
  file := "a.ts"
  language := .typescript
  contentHash := 0xFFFFFFFFFFFFFFFF
  callChains :=
    [{ receiver := "a",
       segments :=
        [.access "b" ⟨1, 2⟩,
          .call "c"
            [⟨.object
                [("text", ⟨.array
                    [⟨.number ⟨0xBFF8000000000000⟩, ⟨1, 12⟩, "-1.5"⟩,
                      ⟨.unknown (some "null"), ⟨1, 18⟩, "null"⟩], ⟨1, 11⟩, "[-1.5, null]"⟩),
                  ("type", ⟨.string "text", ⟨1, 30⟩, "'text'"⟩)], ⟨1, 6⟩, "..."⟩] ⟨1, 4⟩],
       raw := "a.b.c(...)", file := "a.ts", start := ⟨1, 0⟩, stop := ⟨1, 38⟩ }]
  imports := [⟨"m", [.wildcard "m"], 2, false⟩]
  exports := [⟨none, [.same "a"], 3, true⟩]
  fallbacks := { unknownArgs := 1 }

theorem nestedArguments_survive_json :
    nestedArguments.IsProper ∧ nestedArguments.IsFinite ∧
      FileRecord.ofJson? nestedArguments.toJson.written = some nestedArguments := by
  have hproper : nestedArguments.IsProper := by
    have hkeys : "text" < "type" := by decide
    constructor
    simp only [nestedArguments, CallChain.Everywhere, Segment.access, Segment.call, List.mem_cons,
      List.not_mem_nil, or_false, forall_eq, forall_eq_or_imp, argumentsEverywhere,
      argumentEverywhere, propertiesEverywhere, ArgumentKind.Everywhere, IsOrdered, List.map_cons,
      List.map_nil, List.pairwise_cons, List.Pairwise.nil, hkeys, false_implies, implies_true,
      and_self]
  have hnumber : Binary64.isFinite ⟨0xBFF8000000000000⟩ := by decide
  have hfinite : nestedArguments.IsFinite := by
    simp [FileRecord.IsFinite, nestedArguments, CallChain.Everywhere, Segment.access, Segment.call,
      argumentsEverywhere, argumentEverywhere, propertiesEverywhere, ArgumentKind.Everywhere,
      IsFinite, hnumber]
  exact ⟨hproper, hfinite, (file_survives_json hproper).1.2 hfinite⟩

end Polyglot
