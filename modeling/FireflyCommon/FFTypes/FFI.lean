import FireflyCommon.FFTypes.Utf8

set_option autoImplicit false

/-!
# FFIParams in the database

`FFIParams.Value` stores a parameter list as the text `json.Marshal` writes for it, dropping the
error `json.Marshal` can return, and `FFIParams.Scan` reads such text back with `json.Unmarshal`
(pkg/fftypes/ffi.go). A parameter's schema is a `JSONAny`, whose `MarshalJSON` hands its text to
the encoder unchecked: the encoder compacts it and fails when it is not JSON or nests deeper than
the scanner's limit, and `Value` then stores nothing. A parameter's name is a Go string, whose
bytes need not be UTF-8: the encoder writes each invalid byte as the escape of U+FFFD.
-/

namespace FireflyCommon.FFTypes

/-- `JSONAny` (pkg/fftypes/jsonany.go, not among the sources), a string holding JSON text. -/
structure JSONAny where
  text : String
  deriving DecidableEq, Repr

/-- `JSONAny.MarshalJSON` returns the text as it is, and `null` for the empty text. -/
def JSONAny.marshalJSON (h : JSONAny) : List Char :=
  if h.text = "" then ['n', 'u', 'l', 'l'] else h.text.toList

/-- `JSONAny.UnmarshalJSON`, taken as keeping the raw text of the value it is given. The one in
jsonany.go re-marshals that text through an `interface{}` value, which also sorts the keys of
objects and rewrites numbers and escapes; that step is left out here. -/
def JSONAny.unmarshalJSON (raw : List Char) : JSONAny := ⟨String.mk raw⟩

/-- `FFIParam`: a parameter's name, a Go string of bytes, and its schema, a pointer that may be
nil. -/
structure FFIParam where
  name : List UInt8
  schema : Option JSONAny
  deriving DecidableEq, Repr

/-- `FFIParams`: a slice of pointers to parameters. The nil slice is `none`, and a nil pointer a
`none` item. -/
def FFIParams := Option (List (Option FFIParam))

instance : DecidableEq FFIParams := inferInstanceAs (DecidableEq (Option (List (Option FFIParam))))

/-! ## Value -/

/-- `json.Marshal` of one parameter: its fields in order, the name quoted and the schema, left
out when nil, the compacted output of its `MarshalJSON`, which fails when that is not JSON. -/
def marshalParam (param : FFIParam) : Except JsonError (List Char) :=
  let name := '{' :: "\"name\":\"".toList ++ quoteBytes param.name ++ ['"']
  match param.schema with
  | none => .ok (name ++ ['}'])
  | some schema =>
    match compact schema.marshalJSON with
    | .ok text => .ok (name ++ ",\"schema\":".toList ++ text ++ ['}'])
    | .error e => .error (.marshaler "*fftypes.JSONAny" e)

def marshalItem : Option FFIParam → Except JsonError (List Char)
  | none => .ok ['n', 'u', 'l', 'l']
  | some param => marshalParam param

def marshalItems : List (Option FFIParam) → Except JsonError (List Char)
  | [] => .ok []
  | [item] => marshalItem item
  | item :: rest =>
    match marshalItem item, marshalItems rest with
    | .ok text, .ok more => .ok (text ++ ',' :: more)
    | .error e, _ => .error e
    | .ok _, .error e => .error e

/-- `json.Marshal` of an `FFIParams`: `null` for the nil slice, else its items in brackets. -/
def marshal (p : FFIParams) : Except JsonError (List Char) :=
  match p with
  | none => .ok ['n', 'u', 'l', 'l']
  | some items =>
    match marshalItems items with
    | .ok text => .ok ('[' :: text ++ [']'])
    | .error e => .error e

/-- `FFIParams.Value`: the bytes `json.Marshal` returns, none when it fails, and a nil error in
every case. -/
def FFIParams.value (p : FFIParams) : List Char × Option JsonError :=
  match marshal p with
  | .ok bytes => (bytes, none)
  | .error _ => ([], none)

/-! ## Scan -/

/-- The fields of `FFIParam` a key can select. -/
inductive Field where
  | name
  | schema
  deriving DecidableEq

/-- Go's case folding of one character of a key: ASCII letters to upper case, and the long s,
the Kelvin sign and the dotless i to the ASCII letters they fold to. -/
def foldChar (c : Char) : Char :=
  if 'a' ≤ c ∧ c ≤ 'z' then Char.ofNat (c.toNat - 32)
  else if c.toNat = 0x17F then 'S'
  else if c.toNat = 0x212A then 'K'
  else if c.toNat = 0x131 then 'I'
  else c

/-- The field a member's key selects: the one whose tag it equals, exactly or up to case. -/
def paramField (key : List Char) : Option Field :=
  if key.map foldChar = ['N', 'A', 'M', 'E'] then some .name
  else if key.map foldChar = ['S', 'C', 'H', 'E', 'M', 'A'] then some .schema
  else none

/-- The decoder on an object's members into an `FFIParam`, in order: the name takes a string, as
the UTF-8 bytes of the runes unquote reads, and ignores a null, the schema is set to nil by a null
and otherwise given the value's raw text, and other keys are skipped. The first type error is the
result. -/
def decodeMembers : List (List Char × Json × List Char) → FFIParam → Except JsonError FFIParam
  | [], param => .ok param
  | (key, value, raw) :: rest, param =>
    match paramField (unescape key), value with
    | some .name, .string body => decodeMembers rest { param with name := encodeUTF8 (unescape body) }
    | some .name, .null => decodeMembers rest param
    | some .name, v => .error (.unmarshalType v.kind "FFIParam.name" "string")
    | some .schema, .null => decodeMembers rest { param with schema := none }
    | some .schema, _ => decodeMembers rest { param with schema := some (.unmarshalJSON raw) }
    | none, _ => decodeMembers rest param

/-- An array item: null is a nil pointer, and an object a new `FFIParam`. -/
def decodeItem : Json → Except JsonError (Option FFIParam)
  | .null => .ok none
  | .object members =>
    match decodeMembers members ⟨[], none⟩ with
    | .ok param => .ok (some param)
    | .error e => .error e
  | v => .error (.unmarshalType v.kind "" "fftypes.FFIParam")

def decodeItems : List Json → Except JsonError (List (Option FFIParam))
  | [] => .ok []
  | item :: rest =>
    match decodeItem item, decodeItems rest with
    | .ok param, .ok params => .ok (param :: params)
    | .error e, _ => .error e
    | .ok _, .error e => .error e

/-- `json.Unmarshal` into a zero `FFIParams`: the text checked, then decoded; a null leaves it
nil. -/
def unmarshal (data : List Char) : Except JsonError FFIParams :=
  match parse data with
  | .error e => .error e
  | .ok .null => .ok none
  | .ok (.array items) =>
    match decodeItems items with
    | .ok params => .ok (some params)
    | .error e => .error e
  | .ok v => .error (.unmarshalType v.kind "" "fftypes.FFIParams")

/-- What `Scan` is given. -/
inductive ScanSource where
  | nil
  | string (text : String)
  | bytes (data : List Char)
  | other (goType : String)

inductive ScanError where
  | json (e : JsonError)
  /-- `MsgTypeRestoreFailed`, naming the type of the source. -/
  | typeRestoreFailed (goType : String)
  deriving DecidableEq, Repr

/-- `FFIParams.Scan` on a zero `FFIParams`: what it holds afterwards, or the error. -/
def FFIParams.scan (src : ScanSource) : Except ScanError FFIParams :=
  match src with
  | .nil => .ok none
  | .string text =>
    match unmarshal text.toList with
    | .ok p => .ok p
    | .error e => .error (.json e)
  | .bytes data =>
    match unmarshal data with
    | .ok p => .ok p
    | .error e => .error (.json e)
  | .other goType => .error (.typeRestoreFailed goType)

/-- The decoder's errors on a parameter are type errors. -/
theorem decodeMembers_ne_outOfFuel :
    (members : List (List Char × Json × List Char)) → (param : FFIParam) →
      decodeMembers members param ≠ .error .outOfFuel
  | [], _ => nofun
  | (_, _, _) :: rest, _ => by
      unfold decodeMembers
      split <;> first | exact decodeMembers_ne_outOfFuel rest _ | nofun

theorem decodeItems_ne_outOfFuel (items : List Json) : decodeItems items ≠ .error .outOfFuel := by
  have itemDecoded (item : Json) : decodeItem item ≠ .error .outOfFuel := by
    cases item with
    | object members =>
        rw [decodeItem]
        split
        · nofun
        · next decoded =>
            exact fun failed => decodeMembers_ne_outOfFuel _ _ (Except.error.inj failed ▸ decoded)
    | _ => nofun
  induction items with
  | nil => nofun
  | cons item rest inductionHypothesis =>
      unfold decodeItems
      split
      · nofun
      · next decoded => exact fun failed => itemDecoded item (Except.error.inj failed ▸ decoded)
      · next decoded => exact fun failed => inductionHypothesis (Except.error.inj failed ▸ decoded)

/-- `Scan` fails only as `json.Unmarshal` does: the model's fuel never runs out. -/
theorem scan_ne_outOfFuel (src : ScanSource) : FFIParams.scan src ≠ .error (.json .outOfFuel) := by
  have unmarshaled (data : List Char) : unmarshal data ≠ .error .outOfFuel := by
    unfold unmarshal
    split
    · next parsed => exact fun failed => parse_ne_outOfFuel data (Except.error.inj failed ▸ parsed)
    · nofun
    · split
      · nofun
      · next decoded => exact fun failed => decodeItems_ne_outOfFuel _ (Except.error.inj failed ▸ decoded)
    · nofun
  unfold FFIParams.scan
  split
  · nofun
  · split
    · nofun
    · next decoded => exact fun failed => unmarshaled _ (ScanError.json.inj (Except.error.inj failed) ▸ decoded)
  · split
    · nofun
    · next decoded => exact fun failed => unmarshaled _ (ScanError.json.inj (Except.error.inj failed) ▸ decoded)
  · nofun

/-! ## What Value drops -/

theorem marshalItems_error {items : List (Option FFIParam)} {item : Option FFIParam}
    (member : item ∈ items) {e : JsonError} (failed : marshalItem item = .error e) :
    ∃ e', marshalItems items = .error e' := by
  induction items with
  | nil => cases member
  | cons head rest inductionHypothesis =>
      rcases List.mem_cons.mp member with rfl | inRest
      · cases rest with
        | nil => exact ⟨e, failed⟩
        | cons next more => exact ⟨e, by simp [marshalItems, failed]⟩
      · obtain ⟨e', restFailed⟩ := inductionHypothesis inRest
        cases rest with
        | nil => cases inRest
        | cons next more =>
            cases written : marshalItem head with
            | error e'' => exact ⟨e'', by simp [marshalItems, written]⟩
            | ok text => exact ⟨e', by simp [marshalItems, written, restFailed]⟩

/-- A list holding a parameter whose schema's text is not JSON is stored as no bytes, with a nil
error, and `Scan` of what was stored fails. -/
theorem value_drops_marshal_error (items : List (Option FFIParam)) (param : FFIParam)
    (schema : JSONAny) (member : some param ∈ items) (hasSchema : param.schema = some schema)
    (notJSON : ∀ v, parse schema.marshalJSON ≠ .ok v) :
    FFIParams.value (some items) = ([], none) ∧
      FFIParams.scan (.bytes (FFIParams.value (some items)).1) = .error (.json .unexpectedEnd) ∧
      FFIParams.scan (.string ⟨(FFIParams.value (some items)).1⟩) =
        .error (.json .unexpectedEnd) := by
  have failed : ∃ e, marshalItem (some param) = .error e := by
    obtain ⟨name, _ | schema'⟩ := param
    · cases hasSchema
    · cases hasSchema
      cases parsed : parse schema.marshalJSON with
      | error e => exact ⟨.marshaler "*fftypes.JSONAny" e,
          by simp [marshalItem, marshalParam, compact, parsed]⟩
      | ok v => exact absurd parsed (notJSON v)
  obtain ⟨e, itemFailed⟩ := failed
  obtain ⟨e', listFailed⟩ := marshalItems_error member itemFailed
  have stored : FFIParams.value (some items) = ([], none) := by
    simp [FFIParams.value, marshal, listFailed]
  rw [stored]
  exact ⟨rfl, rfl, rfl⟩

/-- A parameter whose schema is an unclosed object. -/
def unclosedParam : FFIParam := ⟨encodeUTF8 ['a'], some ⟨"\x7b"⟩⟩

theorem value_drops_marshal_error_unclosedParam :
    some unclosedParam ∈ [some unclosedParam] ∧ unclosedParam.schema = some ⟨"\x7b"⟩ ∧
      (∀ v, parse (JSONAny.marshalJSON ⟨"\x7b"⟩) ≠ .ok v) ∧
      FFIParams.value (some [some unclosedParam]) = ([], none) ∧
      FFIParams.scan (.bytes (FFIParams.value (some [some unclosedParam])).1) =
        .error (.json .unexpectedEnd) ∧
      FFIParams.scan (.string ⟨(FFIParams.value (some [some unclosedParam])).1⟩) =
        .error (.json .unexpectedEnd) :=
  have notJSON : ∀ v, parse (JSONAny.marshalJSON ⟨"\x7b"⟩) ≠ .ok v := fun _ parsed => by
    cases parsed
  ⟨List.mem_singleton_self _, rfl, notJSON,
    value_drops_marshal_error _ _ _ (List.mem_singleton_self _) rfl notJSON⟩

/-! ## What Scan reads back

`Value` writes each name quoted, with an invalid byte as the escape of U+FFFD, and each schema
compacted; `Scan` reads the name back as UTF-8 and reads a schema member whose value is null as a
nil pointer. So what comes back is the list itself, every name with each invalid byte replaced by
U+FFFD, and every schema replaced by its compacted text, dropped when that text is null. -/

/-- What a schema reads back as after `Value` and `Scan`: nil when its text is null (or not JSON,
when `Value` stores nothing), and otherwise its text as the encoder compacts it. -/
def JSONAny.reread (schema : JSONAny) : Option JSONAny :=
  match parse schema.marshalJSON with
  | .ok .null | .error _ => none
  | .ok v => some (.unmarshalJSON v.escapeHTML.render)

def FFIParam.reread (param : FFIParam) : FFIParam :=
  ⟨encodeUTF8 (decodeUTF8 param.name), param.schema.bind JSONAny.reread⟩

def FFIParams.reread (p : FFIParams) : FFIParams :=
  p.map (List.map (Option.map FFIParam.reread))

/-- The schema's `MarshalJSON` output, when it is JSON, nests at most `maxNestingDepth - 2`
deep, so that inside the list's array and the parameter's object the decoder accepts it. -/
def FFIParam.SchemaNested (param : FFIParam) : Prop :=
  ∀ schema v, param.schema = some schema → parse schema.marshalJSON = .ok v →
    v.depth + 2 ≤ maxNestingDepth

def FFIParams.SchemasNested (p : FFIParams) : Prop :=
  ∀ items param, p = some items → some param ∈ items → param.SchemaNested

/-- The member the encoder writes for a parameter's name. -/
def nameMember (name : List UInt8) : List Char × Json × List Char :=
  (['n', 'a', 'm', 'e'], .string (quoteBytes name), (Json.string (quoteBytes name)).render)

/-- The member the encoder writes for a schema whose value, escaped, is `v`. -/
def schemaMember (v : Json) : List Char × Json × List Char :=
  (['s', 'c', 'h', 'e', 'm', 'a'], v, v.render)

theorem marshalParam_none (name : List UInt8) :
    marshalParam ⟨name, none⟩ = .ok (Json.object [nameMember name]).render := by
  simp [marshalParam, nameMember, Json.render, renderMembers]

theorem marshalParam_some (name : List UInt8) {schema : JSONAny} {v : Json}
    (parsed : parse schema.marshalJSON = .ok v) :
    marshalParam ⟨name, some schema⟩ =
      .ok (Json.object [nameMember name, schemaMember v.escapeHTML]).render := by
  simp [marshalParam, compact, parsed, nameMember, schemaMember, Json.render, renderMembers]

/-- A parameter whose schema, if it has one, is JSON is written. -/
theorem marshalItem_ok {item : Option FFIParam}
    (parsed : ∀ param schema, item = some param → param.schema = some schema →
      ∃ v, parse schema.marshalJSON = .ok v) :
    ∃ text, marshalItem item = .ok text := by
  rcases item with _ | ⟨name, _ | schema⟩
  · exact ⟨_, rfl⟩
  · exact ⟨_, marshalParam_none name⟩
  · obtain ⟨v, parsedSchema⟩ := parsed _ schema rfl rfl
    exact ⟨_, marshalParam_some name parsedSchema⟩

theorem JSONAny.marshalJSON_unmarshalJSON {raw : List Char} (nonEmpty : raw ≠ []) :
    (JSONAny.unmarshalJSON raw).marshalJSON = raw := by
  have notEmpty : String.mk raw ≠ "" := fun empty => nonEmpty (congrArg String.data empty)
  simp [JSONAny.marshalJSON, JSONAny.unmarshalJSON, notEmpty]

theorem Json.escapeHTML_ne_null {v : Json} (notNull : v ≠ .null) : v.escapeHTML ≠ .null := by
  cases v <;> simp [Json.escapeHTML] at notNull ⊢

/-- A schema's text as the encoder compacts it reads as the escaped value. -/
theorem JSONAny.parse_unmarshalJSON_render {schema : JSONAny} {v : Json}
    (parsed : parse schema.marshalJSON = .ok v) :
    parse (JSONAny.unmarshalJSON v.escapeHTML.render).marshalJSON = .ok v.escapeHTML := by
  obtain ⟨valid, nested⟩ := parse_valid parsed
  have escaped := v.valid_escapeHTML valid
  obtain ⟨c, tail, rendered, -⟩ := Json.render_cons escaped
  rw [JSONAny.marshalJSON_unmarshalJSON (by simp [rendered]),
    parse_render escaped v.compact_escapeHTML (v.depth_escapeHTML ▸ nested)]

theorem JSONAny.reread_of_parse {schema : JSONAny} {v : Json}
    (parsed : parse schema.marshalJSON = .ok v) (notNull : v ≠ .null) :
    schema.reread = some (.unmarshalJSON v.escapeHTML.render) := by
  unfold JSONAny.reread
  rw [parsed]
  cases v
  · exact absurd rfl notNull
  all_goals rfl

theorem JSONAny.reread_of_null {schema : JSONAny} (parsed : parse schema.marshalJSON = .ok .null) :
    schema.reread = none := by
  unfold JSONAny.reread
  rw [parsed]

/-- A schema read back reads back as itself. -/
theorem JSONAny.reread_reread {schema schema' : JSONAny} (reread : schema.reread = some schema') :
    schema'.reread = some schema' ∧
      ∃ v, parse schema.marshalJSON = .ok v ∧ parse schema'.marshalJSON = .ok v.escapeHTML := by
  cases parsed : parse schema.marshalJSON with
  | error e =>
      unfold JSONAny.reread at reread
      rw [parsed] at reread
      cases reread
  | ok v =>
      by_cases null : v = .null
      · rw [JSONAny.reread_of_null (null ▸ parsed)] at reread
        cases reread
      · rw [JSONAny.reread_of_parse parsed null] at reread
        cases reread
        have reparsed := JSONAny.parse_unmarshalJSON_render parsed
        rw [JSONAny.reread_of_parse reparsed (Json.escapeHTML_ne_null null),
          Json.escapeHTML_escapeHTML]
        exact ⟨rfl, v, rfl, reparsed⟩

/-- The decoder reads a quoted name back with each invalid byte replaced by U+FFFD. -/
theorem encodeUTF8_unescape_quoteBytes (name : List UInt8) :
    encodeUTF8 (unescape (quoteBytes name)) = encodeUTF8 (decodeUTF8 name) := by
  rw [(quoteBytes_spec name).1]

theorem decodeItem_nameMember (name : List UInt8) :
    decodeItem (.object [nameMember name]) = .ok (some ⟨encodeUTF8 (decodeUTF8 name), none⟩) := by
  simp only [decodeItem, nameMember, decodeMembers]
  rw [show paramField (unescape ['n', 'a', 'm', 'e']) = some .name from rfl]
  simp only [encodeUTF8_unescape_quoteBytes]

theorem decodeItem_schemaMember (name : List UInt8) {v : Json} (notNull : v ≠ .null) :
    decodeItem (.object [nameMember name, schemaMember v]) =
      .ok (some ⟨encodeUTF8 (decodeUTF8 name), some (.unmarshalJSON v.render)⟩) := by
  simp only [decodeItem, nameMember, schemaMember, decodeMembers]
  rw [show paramField (unescape ['n', 'a', 'm', 'e']) = some .name from rfl,
    show paramField (unescape ['s', 'c', 'h', 'e', 'm', 'a']) = some .schema from rfl]
  cases v
  · exact absurd rfl notNull
  all_goals simp only [encodeUTF8_unescape_quoteBytes]

theorem decodeItem_nullSchema (name : List UInt8) :
    decodeItem (.object [nameMember name, schemaMember .null]) =
      .ok (some ⟨encodeUTF8 (decodeUTF8 name), none⟩) := by
  simp only [decodeItem, nameMember, schemaMember, decodeMembers]
  rw [show paramField (unescape ['n', 'a', 'm', 'e']) = some .name from rfl,
    show paramField (unescape ['s', 'c', 'h', 'e', 'm', 'a']) = some .schema from rfl]
  simp only [encodeUTF8_unescape_quoteBytes]

/-- `json.Marshal` of a list succeeds exactly when it succeeds on every item. -/
theorem marshalItems_ok_iff (items : List (Option FFIParam)) :
    (∃ text, marshalItems items = .ok text) ↔ ∀ item ∈ items, ∃ text, marshalItem item = .ok text := by
  induction items with
  | nil => exact ⟨fun _ _ member => absurd member (List.not_mem_nil _), fun _ => ⟨[], rfl⟩⟩
  | cons item rest inductionHypothesis =>
      rw [List.forall_mem_cons, ← inductionHypothesis]
      cases rest with
      | nil => exact ⟨fun written => ⟨written, [], rfl⟩, fun written => written.1⟩
      | cons next more =>
          constructor
          · rintro ⟨text, written⟩
            unfold marshalItems at written
            split at written
            · exact ⟨⟨_, ‹_›⟩, ⟨_, ‹_›⟩⟩
            · cases written
            · cases written
          · rintro ⟨⟨text, written⟩, more, writtenRest⟩
            exact ⟨text ++ ',' :: more, by simp only [marshalItems, written, writtenRest]⟩

theorem marshalItems_cons {item : Option FFIParam} {rest : List (Option FFIParam)} {t : Json}
    {ts : List Json} (written : marshalItem item = .ok t.render)
    (writtenRest : marshalItems rest = .ok (renderItems ts)) (length : ts.length = rest.length) :
    marshalItems (item :: rest) = .ok (renderItems (t :: ts)) := by
  match rest, ts, length with
  | [], [], _ => simp [marshalItems, written, renderItems]
  | _ :: _, _ :: _, _ => simp [marshalItems, written, writtenRest, renderItems]

/-- What `json.Marshal` writes for an item is a value within the decoder's nesting limit that the
decoder reads back as the item read back. -/
theorem marshalItem_decode (item : Option FFIParam) {text : List Char}
    (nested : ∀ param, item = some param → param.SchemaNested)
    (written : marshalItem item = .ok text) :
    ∃ t, text = t.render ∧ t.Valid ∧ t.Compact ∧ t.depth + 1 ≤ maxNestingDepth ∧
      decodeItem t = .ok (item.map FFIParam.reread) := by
  rcases item with _ | ⟨name, _ | schema⟩
  · cases written
    exact ⟨.null, rfl, trivial, trivial, by decide, rfl⟩
  · rw [marshalItem, marshalParam_none] at written
    cases written
    exact ⟨.object [nameMember name], rfl, ⟨rfl, (quoteBytes_spec _).2, trivial⟩,
      ⟨rfl, trivial, trivial⟩, by simp [Json.depth, membersDepth, nameMember, maxNestingDepth],
      decodeItem_nameMember name⟩
  · cases parsed : parse schema.marshalJSON with
    | error e => simp [marshalItem, marshalParam, compact, parsed] at written
    | ok v =>
        rw [marshalItem, marshalParam_some name parsed] at written
        cases written
        have valid := v.valid_escapeHTML (parse_valid parsed).1
        have deep := nested _ rfl schema v rfl parsed
        refine ⟨_, rfl, ⟨rfl, (quoteBytes_spec _).2, rfl, valid, trivial⟩,
          ⟨rfl, trivial, rfl, v.compact_escapeHTML, trivial⟩, ?_, ?_⟩
        · simp only [Json.depth, membersDepth, nameMember, schemaMember, v.depth_escapeHTML]
          omega
        by_cases null : v = .null
        · subst null
          rw [Option.map_some', FFIParam.reread, Option.some_bind, JSONAny.reread_of_null parsed]
          exact decodeItem_nullSchema name
        · rw [Option.map_some', FFIParam.reread, Option.some_bind, JSONAny.reread_of_parse parsed null]
          exact decodeItem_schemaMember name (Json.escapeHTML_ne_null null)

theorem marshalItems_decode (items : List (Option FFIParam)) {text : List Char}
    (nested : ∀ param, some param ∈ items → param.SchemaNested)
    (written : marshalItems items = .ok text) :
    ∃ ts, text = renderItems ts ∧ ts.length = items.length ∧ ItemsValid ts ∧ ItemsCompact ts ∧
      itemsDepth ts + 1 ≤ maxNestingDepth ∧
      decodeItems ts = .ok (items.map (Option.map FFIParam.reread)) := by
  induction items generalizing text with
  | nil =>
      cases written
      exact ⟨[], rfl, rfl, trivial, trivial, by decide, rfl⟩
  | cons item rest inductionHypothesis =>
      have parts := (marshalItems_ok_iff (item :: rest)).1 ⟨text, written⟩
      obtain ⟨itemText, itemWritten⟩ := parts item (List.mem_cons_self _ _)
      obtain ⟨restText, restWritten⟩ :=
        (marshalItems_ok_iff rest).2 fun item' member => parts item' (List.mem_cons_of_mem _ member)
      obtain ⟨t, rfl, valid, compact, deep, decoded⟩ := marshalItem_decode item
        (fun param same => nested param (same ▸ List.mem_cons_self _ _)) itemWritten
      obtain ⟨ts, rfl, length, validRest, compactRest, deepRest, decodedRest⟩ :=
        inductionHypothesis (fun param member => nested param (List.mem_cons_of_mem _ member))
          restWritten
      rw [marshalItems_cons itemWritten restWritten length] at written
      cases written
      refine ⟨t :: ts, rfl, by simp [length], ⟨valid, validRest⟩, ⟨compact, compactRest⟩, ?_,
        by simp [decodeItems, decoded, decodedRest]⟩
      simp only [itemsDepth]
      omega

/-- `json.Unmarshal` of what `json.Marshal` writes for a parameter list whose schemas nest within
the decoder's limit is the list read back. -/
theorem unmarshal_marshal {p : FFIParams} {bytes : List Char} (written : marshal p = .ok bytes)
    (nested : p.SchemasNested) : unmarshal bytes = .ok p.reread := by
  match p, written, nested with
  | none, written, _ =>
      cases written
      rfl
  | some items, written, nested =>
      cases itemsWritten : marshalItems items with
      | error e => simp [marshal, itemsWritten] at written
      | ok text =>
          simp only [marshal, itemsWritten, Except.ok.injEq] at written
          subst written
          obtain ⟨ts, rfl, -, valid, compact, deep, decoded⟩ :=
            marshalItems_decode items (nested items · rfl) itemsWritten
          have parsed : parse (Json.array ts).render = .ok (.array ts) :=
            parse_render valid compact (by simp only [Json.depth]; omega)
          simp only [Json.render, List.cons_append] at parsed
          simp [unmarshal, parsed, decoded, FFIParams.reread]

theorem scan_value_of_marshal {p : FFIParams} {bytes : List Char} (written : marshal p = .ok bytes)
    (nested : p.SchemasNested) :
    FFIParams.scan (.bytes (FFIParams.value p).1) = .ok p.reread ∧
      FFIParams.scan (.string ⟨(FFIParams.value p).1⟩) = .ok p.reread := by
  have stored : (FFIParams.value p).1 = bytes := by simp [FFIParams.value, written]
  have read := unmarshal_marshal written nested
  rw [stored]
  exact ⟨by simp [FFIParams.scan, read], by simp [FFIParams.scan, read]⟩

/-- When `json.Marshal` succeeds on a parameter list whose schemas nest within the decoder's
limit, `Scan` reads what `Value` stores, as bytes or as a string, back as that list with every
name's invalid bytes replaced by U+FFFD, every schema compacted, and every schema whose text is
null read as a nil pointer. -/
theorem scan_value_eq_reread (p : FFIParams) (written : ∃ bytes, marshal p = .ok bytes)
    (nested : p.SchemasNested) :
    FFIParams.scan (.bytes (FFIParams.value p).1) = .ok p.reread ∧
      FFIParams.scan (.string ⟨(FFIParams.value p).1⟩) = .ok p.reread := by
  obtain ⟨_, written⟩ := written
  exact scan_value_of_marshal written nested

/-- A parameter list with a schema that is null, one written with whitespace, and a name that is
not UTF-8. -/
def nullSchemaParams : FFIParams :=
  some [some ⟨encodeUTF8 ['a'], some ⟨"null"⟩⟩, some ⟨[0x62, 0xFF], some ⟨" [ 1 ] "⟩⟩]

theorem nullSchemaParams_schemasNested : nullSchemaParams.SchemasNested := by
  rintro items param ⟨⟩ member schema v hasSchema parsed
  simp only [nullSchemaParams, List.mem_cons, Option.some.injEq, List.mem_singleton,
    List.not_mem_nil, or_false] at member
  rcases member with rfl | rfl <;> cases hasSchema <;> cases parsed <;> decide

theorem scan_value_eq_reread_nullSchemaParams :
    (∃ bytes, marshal nullSchemaParams = .ok bytes) ∧ nullSchemaParams.SchemasNested ∧
      nullSchemaParams.reread =
        some [some ⟨encodeUTF8 ['a'], none⟩, some ⟨encodeUTF8 ['b', runeError], some ⟨"[1]"⟩⟩] ∧
      FFIParams.scan (.bytes (FFIParams.value nullSchemaParams).1) = .ok nullSchemaParams.reread ∧
      FFIParams.scan (.string ⟨(FFIParams.value nullSchemaParams).1⟩) =
        .ok nullSchemaParams.reread :=
  ⟨⟨_, rfl⟩, nullSchemaParams_schemasNested, rfl,
    scan_value_eq_reread nullSchemaParams ⟨_, rfl⟩ nullSchemaParams_schemasNested⟩

/-! ## Reading back what Value stores -/

/-- The names of a parameter list, and where it and its items are nil. -/
def FFIParams.names (p : FFIParams) : Option (List (Option (List UInt8))) :=
  p.map (List.map (Option.map FFIParam.name))

/-- Each schema's `MarshalJSON` output is JSON whose value is not null and nests at most
`maxNestingDepth - 2` deep. -/
def FFIParams.SchemasJSON (p : FFIParams) : Prop :=
  ∀ items param schema, p = some items → some param ∈ items → param.schema = some schema →
    ∃ v, parse schema.marshalJSON = .ok v ∧ v ≠ .null ∧ v.depth + 2 ≤ maxNestingDepth

/-- Each name is valid UTF-8. -/
def FFIParams.NamesValid (p : FFIParams) : Prop :=
  ∀ items param, p = some items → some param ∈ items → validUTF8 param.name = true

theorem FFIParams.SchemasJSON.nested {p : FFIParams} (schemas : p.SchemasJSON) : p.SchemasNested :=
  fun items param same member schema v hasSchema parsed => by
    obtain ⟨v', parsed', -, deep⟩ := schemas items param schema same member hasSchema
    rw [parsed] at parsed'
    cases parsed'
    exact deep

theorem FFIParams.SchemasJSON.marshal_ok {p : FFIParams} (schemas : p.SchemasJSON) :
    ∃ bytes, marshal p = .ok bytes := by
  match p, schemas with
  | none, _ => exact ⟨_, rfl⟩
  | some items, schemas =>
      obtain ⟨text, written⟩ := (marshalItems_ok_iff items).2 fun item member =>
        marshalItem_ok fun param schema same hasSchema => by
          subst same
          obtain ⟨v, parsed, -⟩ := schemas items param schema rfl member hasSchema
          exact ⟨v, parsed⟩
      exact ⟨'[' :: text ++ [']'], by simp [marshal, written]⟩

/-- Reading back changes nothing `json.Marshal` writes for a parameter whose name is valid UTF-8
and whose schema, if any, is JSON that is not null. -/
theorem marshalItem_reread_eq {item : Option FFIParam}
    (named : ∀ param, item = some param → validUTF8 param.name = true)
    (schemaJSON : ∀ param schema, item = some param → param.schema = some schema →
      ∃ v, parse schema.marshalJSON = .ok v ∧ v ≠ .null) :
    marshalItem (item.map FFIParam.reread) = marshalItem item := by
  rcases item with _ | ⟨name, _ | schema⟩
  · rfl
  · simp [FFIParam.reread, encodeUTF8_decodeUTF8 _ (named _ rfl)]
  · obtain ⟨v, parsed, notNull⟩ := schemaJSON _ schema rfl rfl
    simp only [Option.map_some', FFIParam.reread, Option.some_bind,
      JSONAny.reread_of_parse parsed notNull, encodeUTF8_decodeUTF8 _ (named _ rfl), marshalItem,
      marshalParam_some name (JSONAny.parse_unmarshalJSON_render parsed),
      marshalParam_some name parsed, Json.escapeHTML_escapeHTML]

theorem marshalItems_map {f : Option FFIParam → Option FFIParam} {items : List (Option FFIParam)}
    (same : ∀ item ∈ items, marshalItem (f item) = marshalItem item) :
    marshalItems (items.map f) = marshalItems items := by
  induction items with
  | nil => rfl
  | cons item rest inductionHypothesis =>
      have restSame := inductionHypothesis fun item' member => same item' (List.mem_cons_of_mem _ member)
      have itemSame := same item (List.mem_cons_self _ _)
      cases rest with
      | nil => simp [marshalItems, itemSame]
      | cons next more =>
          simp only [List.map_cons] at restSame ⊢
          simp only [marshalItems, itemSame, restSame]

theorem FFIParams.marshal_reread_eq {p : FFIParams} (schemas : p.SchemasJSON) (named : p.NamesValid) :
    marshal p.reread = marshal p := by
  match p, schemas, named with
  | none, _, _ => rfl
  | some items, schemas, named =>
      have same := marshalItems_map (f := Option.map FFIParam.reread) fun item member =>
        marshalItem_reread_eq (fun param same => named items param rfl (same ▸ member))
          fun param schema same hasSchema => by
            obtain ⟨v, parsed, notNull, -⟩ := schemas items param schema rfl (same ▸ member) hasSchema
            exact ⟨v, parsed, notNull⟩
      simp only [FFIParams.reread, Option.map_some', marshal, same]

theorem FFIParams.names_reread {p : FFIParams} (named : p.NamesValid) : p.reread.names = p.names := by
  match p, named with
  | none, _ => rfl
  | some items, named =>
      simp only [FFIParams.reread, FFIParams.names, Option.map_some', List.map_map, Option.some.injEq]
      refine List.map_congr_left fun item member => ?_
      rcases item with _ | param
      · rfl
      · simp [FFIParam.reread, encodeUTF8_decodeUTF8 _ (named items param rfl member)]

/-- When every name is valid UTF-8 and every schema's text is JSON whose value is not null and
nests within the decoder's limit, `Scan` reads what `Value` stores, as bytes or as a string, back
into a list of the same shape and names, which `Value` stores as the same bytes. -/
theorem scan_value_roundTrip (p : FFIParams) (schemas : p.SchemasJSON) (named : p.NamesValid) :
    ∃ q, FFIParams.scan (.bytes (FFIParams.value p).1) = .ok q ∧
      FFIParams.scan (.string ⟨(FFIParams.value p).1⟩) = .ok q ∧
      q.names = p.names ∧ FFIParams.value q = FFIParams.value p := by
  obtain ⟨_, written⟩ := schemas.marshal_ok
  obtain ⟨readBytes, readString⟩ := scan_value_of_marshal written schemas.nested
  refine ⟨p.reread, readBytes, readString, FFIParams.names_reread named, ?_⟩
  simp only [FFIParams.value, FFIParams.marshal_reread_eq schemas named]

/-- A parameter list with a nil item and a schema written with whitespace. -/
def typedParams : FFIParams :=
  some [some ⟨encodeUTF8 "amount".toList, some ⟨"\x7b \"type\" : \"integer\" \x7d"⟩⟩, none]

theorem scan_value_roundTrip_typedParams :
    typedParams.SchemasJSON ∧ typedParams.NamesValid ∧
      ∃ q, FFIParams.scan (.bytes (FFIParams.value typedParams).1) = .ok q ∧
        FFIParams.scan (.string ⟨(FFIParams.value typedParams).1⟩) = .ok q ∧
        q.names = typedParams.names ∧ FFIParams.value q = FFIParams.value typedParams :=
  have member {param : FFIParam} (inList : some param ∈ [some ⟨encodeUTF8 "amount".toList,
      some ⟨"\x7b \"type\" : \"integer\" \x7d"⟩⟩, none]) :
      param = ⟨encodeUTF8 "amount".toList, some ⟨"\x7b \"type\" : \"integer\" \x7d"⟩⟩ := by
    simpa using inList
  have schemas : typedParams.SchemasJSON := by
    rintro items param schema ⟨⟩ inList hasSchema
    obtain rfl := member inList
    cases hasSchema
    exact ⟨_, rfl, fun isNull => Json.noConfusion isNull, by decide⟩
  have named : typedParams.NamesValid := by
    rintro items param ⟨⟩ inList
    obtain rfl := member inList
    exact validUTF8_encodeUTF8 _
  ⟨schemas, named, scan_value_roundTrip typedParams schemas named⟩

/-! ## A fixed point -/

theorem FFIParams.schemasNested_reread {p : FFIParams} (nested : p.SchemasNested) :
    p.reread.SchemasNested := by
  rintro items param same member schema' v hasSchema parsed
  match p, nested, same with
  | some items', nested, same =>
      obtain rfl : items'.map (Option.map FFIParam.reread) = items := Option.some.inj same
      obtain ⟨item, inItems, rereadItem⟩ := List.mem_map.1 member
      rcases item with _ | ⟨name, _ | schema⟩
      · cases rereadItem
      · cases rereadItem
        cases hasSchema
      · cases rereadItem
        obtain ⟨-, v', parsed', reparsed⟩ := JSONAny.reread_reread hasSchema
        rw [reparsed] at parsed
        cases parsed
        rw [Json.depth_escapeHTML]
        exact nested items' _ rfl inItems schema v' rfl parsed'

theorem marshalItem_reread {item : Option FFIParam} {text : List Char}
    (written : marshalItem item = .ok text) :
    ∃ text', marshalItem (item.map FFIParam.reread) = .ok text' := by
  rcases item with _ | ⟨name, _ | schema⟩
  · exact ⟨_, rfl⟩
  · exact ⟨_, marshalParam_none _⟩
  · cases reread : schema.reread with
    | none =>
        rw [Option.map_some', FFIParam.reread, Option.some_bind, reread]
        exact ⟨_, marshalParam_none _⟩
    | some schema' =>
        obtain ⟨-, v, -, reparsed⟩ := JSONAny.reread_reread reread
        rw [Option.map_some', FFIParam.reread, Option.some_bind, reread]
        exact ⟨_, marshalParam_some _ reparsed⟩

theorem FFIParams.reread_reread (p : FFIParams) : p.reread.reread = p.reread := by
  have paramReread (param : FFIParam) : param.reread.reread = param.reread := by
    obtain ⟨name, _ | schema⟩ := param
    · simp [FFIParam.reread, decodeUTF8_encodeUTF8]
    · cases reread : schema.reread with
      | none => simp [FFIParam.reread, reread, decodeUTF8_encodeUTF8]
      | some schema' =>
          simp [FFIParam.reread, reread, (JSONAny.reread_reread reread).1, decodeUTF8_encodeUTF8]
  cases p with
  | none => rfl
  | some items => simp [FFIParams.reread, Function.comp_def, paramReread]

theorem marshal_reread {p : FFIParams} {bytes : List Char} (written : marshal p = .ok bytes) :
    ∃ bytes', marshal p.reread = .ok bytes' := by
  match p, written with
  | none, _ => exact ⟨_, rfl⟩
  | some items, written =>
      cases itemsWritten : marshalItems items with
      | error e => simp [marshal, itemsWritten] at written
      | ok text =>
          have eachWritten := (marshalItems_ok_iff items).1 ⟨text, itemsWritten⟩
          obtain ⟨text', rereadWritten⟩ :=
              (marshalItems_ok_iff (items.map (Option.map FFIParam.reread))).2 fun item' member => by
            obtain ⟨item, inItems, rfl⟩ := List.mem_map.1 member
            obtain ⟨_, itemWritten⟩ := eachWritten item inItems
            exact marshalItem_reread itemWritten
          exact ⟨'[' :: text' ++ [']'], by simp [FFIParams.reread, marshal, rereadWritten]⟩

/-- Parameters that `Scan` read back from what `Value` stored are stored and read back unchanged:
one round trip reaches what every later one gives. -/
theorem scan_value_reread (p : FFIParams) (written : ∃ bytes, marshal p = .ok bytes)
    (nested : p.SchemasNested) :
    FFIParams.scan (.bytes (FFIParams.value p.reread).1) = .ok p.reread ∧
      FFIParams.scan (.string ⟨(FFIParams.value p.reread).1⟩) = .ok p.reread := by
  obtain ⟨_, written⟩ := written
  obtain ⟨_, rereadWritten⟩ := marshal_reread written
  have read := scan_value_of_marshal rereadWritten (FFIParams.schemasNested_reread nested)
  rw [FFIParams.reread_reread] at read
  exact read

theorem scan_value_reread_nullSchemaParams :
    (∃ bytes, marshal nullSchemaParams = .ok bytes) ∧ nullSchemaParams.SchemasNested ∧
      FFIParams.scan (.bytes (FFIParams.value nullSchemaParams.reread).1) =
        .ok nullSchemaParams.reread ∧
      FFIParams.scan (.string ⟨(FFIParams.value nullSchemaParams.reread).1⟩) =
        .ok nullSchemaParams.reread :=
  ⟨⟨_, rfl⟩, nullSchemaParams_schemasNested,
    scan_value_reread nullSchemaParams ⟨_, rfl⟩ nullSchemaParams_schemasNested⟩

end FireflyCommon.FFTypes
