import FireflyCommon.FFTypes.Json

set_option autoImplicit false

/-!
# Reading back what was written

`parse` reads back every value `render` writes, when its strings and numbers are ones the scanner
accepts, each member's raw text is its value's text, and it nests within the scanner's limit
(`parse_render`). Everything `parse` returns has such strings and numbers and nests within the
limit (`parse_valid`), and `escapeHTML` keeps both and sets each raw text, so what the encoder
compacts reads back as what it wrote.
-/

namespace FireflyCommon.FFTypes

/-! ## Leaves -/

theorem char_le_iff_toNat {a b : Char} : a ≤ b ↔ a.toNat ≤ b.toNat := .rfl

@[simp]
theorem skipSpace_cons_of_not_space (c : Char) (rest : List Char) (notSpace : isSpace c = false) :
    skipSpace (c :: rest) = c :: rest := by
  simp [skipSpace, notSpace]

/-! The string scanner reads a valid body up to its closing quote; one lemma per scanner state,
proved together. -/

mutual

theorem scanString_append : (body : List Char) → validBody body = true → (rest : List Char) →
    scanString (body ++ '"' :: rest) = .ok (body, rest)
  | [], _, _ => rfl
  | c :: body, valid, rest => by
      rw [List.cons_append, scanString]
      by_cases backslash : c = '\\'
      · subst backslash
        rw [validBody, if_pos rfl] at valid
        rw [if_neg (by decide), if_pos rfl, scanEscape_append body valid rest]
      · rw [validBody, if_neg backslash] at valid
        simp only [Bool.and_eq_true, bne_iff_ne, ne_eq, decide_eq_true_eq] at valid
        obtain ⟨⟨notQuote, printable⟩, validRest⟩ := valid
        rw [if_neg notQuote, if_neg backslash, if_neg (by omega), scanString_append body validRest rest]
        rfl

theorem scanEscape_append : (body : List Char) → validEscape body = true → (rest : List Char) →
    scanEscape (body ++ '"' :: rest) = .ok ('\\' :: body, rest)
  | [], valid, _ => by cases valid
  | e :: body, valid, rest => by
      rw [List.cons_append, scanEscape]
      by_cases u : e = 'u'
      · subst u
        rw [validEscape, if_pos rfl] at valid
        rw [if_pos rfl, scanUnit_append body valid rest]
      · rw [validEscape, if_neg u, Bool.and_eq_true] at valid
        rw [if_neg u, if_pos valid.1, scanString_append body valid.2 rest]
        rfl

theorem scanUnit_append : (body : List Char) → validUnit body = true → (rest : List Char) →
    scanUnit (body ++ '"' :: rest) = .ok ('\\' :: 'u' :: body, rest)
  | a :: b :: c :: d :: body, valid, rest => by
      rw [validUnit, Bool.and_eq_true] at valid
      simp only [List.cons_append]
      rw [scanUnit, if_pos valid.1, scanString_append body valid.2 rest]
      rfl
  | [], valid, _ | [_], valid, _ | [_, _], valid, _ | [_, _, _], valid, _ => by cases valid

end

/-- The parts of a number the scanner accepts: an integer part that is a zero or starts with a
non-zero digit, and a fraction and an exponent with at least one digit. -/
structure NumberLiteral.Valid (n : NumberLiteral) : Prop where
  integer : n.integer = ['0'] ∨ ∃ d ds, n.integer = d :: ds ∧ d ≠ '0' ∧ (d :: ds).all isDigit
  fraction : ∀ digits, n.fraction = some digits → digits ≠ [] ∧ digits.all isDigit
  exponent : ∀ e sign digits, n.exponent = some (e, sign, digits) →
    (e = 'e' ∨ e = 'E') ∧ (sign = none ∨ sign = some '+' ∨ sign = some '-') ∧ digits ≠ [] ∧
      digits.all isDigit

/-- What may follow a value inside a text `render` writes: a comma, a closing bracket or brace,
or nothing. -/
def EndsValue (rest : List Char) : Prop :=
  ∀ c tail, rest = c :: tail → c = ',' ∨ c = ']' ∨ c = '}'

theorem span_digits {digits : List Char} (all : digits.all isDigit = true) {rest : List Char}
    (stop : ∀ c tail, rest = c :: tail → isDigit c = false) :
    (digits ++ rest).takeWhile isDigit = digits ∧ (digits ++ rest).dropWhile isDigit = rest := by
  induction digits with
  | nil =>
      cases rest with
      | nil => exact ⟨rfl, rfl⟩
      | cons c tail => simp [stop c tail rfl]
  | cons d digits inductionHypothesis =>
      simp only [List.all_cons, Bool.and_eq_true] at all
      simp [all.1, inductionHypothesis all.2]

theorem scanDigits_append {digits : List Char} (nonEmpty : digits ≠ [])
    (all : digits.all isDigit = true) {rest : List Char}
    (stop : ∀ c tail, rest = c :: tail → isDigit c = false) :
    scanDigits (digits ++ rest) = .ok (digits, rest) := by
  obtain ⟨taken, dropped⟩ := span_digits all stop
  unfold scanDigits
  split
  · simp_all
  · rw [dropped, taken]

theorem scanSign_append {sign : Option Char}
    (kind : sign = none ∨ sign = some '+' ∨ sign = some '-') {text : List Char}
    (unsigned : ∀ c tail, text = c :: tail → c ≠ '+' ∧ c ≠ '-') :
    scanSign (sign.toList ++ text) = (sign, text) := by
  rcases kind with rfl | rfl | rfl
  · cases text with
    | nil => rfl
    | cons c tail =>
        obtain ⟨notPlus, notMinus⟩ := unsigned c tail rfl
        rw [Option.toList_none, List.nil_append, scanSign.eq_3 _ (fun _ plus => notPlus (by cases plus; rfl))
          (fun _ minus => notMinus (by cases minus; rfl))]
  · rfl
  · rfl

theorem scanExponent_append {exponent : Option (Char × Option Char × List Char)}
    (valid : ∀ e sign digits, exponent = some (e, sign, digits) →
      (e = 'e' ∨ e = 'E') ∧ (sign = none ∨ sign = some '+' ∨ sign = some '-') ∧ digits ≠ [] ∧
        digits.all isDigit)
    {rest : List Char} (stops : EndsValue rest) :
    scanExponent (NumberLiteral.exponentText exponent ++ rest) = .ok (exponent, rest) := by
  have notDigit : ∀ c tail, rest = c :: tail → isDigit c = false := by
    intro c tail split
    rcases stops c tail split with rfl | rfl | rfl <;> rfl
  cases exponent with
  | none =>
      cases rest with
      | nil => rfl
      | cons c tail =>
          have : ¬(c = 'e' ∨ c = 'E') := by
            rcases stops c tail rfl with rfl | rfl | rfl <;> decide
          simp [NumberLiteral.exponentText, scanExponent, this]
  | some exponent =>
      obtain ⟨e, sign, digits⟩ := exponent
      obtain ⟨mark, signed, nonEmpty, all⟩ := valid e sign digits rfl
      have unsigned : ∀ c tail, digits ++ rest = c :: tail → c ≠ '+' ∧ c ≠ '-' := by
        intro c tail split
        obtain ⟨d, ds, rfl⟩ := List.exists_cons_of_ne_nil nonEmpty
        simp only [List.cons_append, List.cons.injEq] at split
        simp only [List.all_cons, Bool.and_eq_true] at all
        rw [← split.1]
        constructor <;> rintro rfl <;> exact absurd all.1 (by decide)
      simp [NumberLiteral.exponentText, scanExponent, mark, scanSign_append signed unsigned,
        scanDigits_append nonEmpty all notDigit]

theorem scanFraction_append {fraction : Option (List Char)}
    (valid : ∀ digits, fraction = some digits → digits ≠ [] ∧ digits.all isDigit)
    (rest : List Char) (stop : ∀ c tail, rest = c :: tail → isDigit c = false ∧ c ≠ '.') :
    scanFraction (NumberLiteral.fractionText fraction ++ rest) = .ok (fraction, rest) := by
  cases fraction with
  | none =>
      cases rest with
      | nil => rfl
      | cons c tail => simp [NumberLiteral.fractionText, scanFraction, (stop c tail rfl).2]
  | some digits =>
      obtain ⟨nonEmpty, all⟩ := valid digits rfl
      simp [NumberLiteral.fractionText, scanFraction,
        scanDigits_append nonEmpty all fun c tail split => (stop c tail split).1]

theorem scanInteger_append {integer : List Char}
    (valid : integer = ['0'] ∨ ∃ d ds, integer = d :: ds ∧ d ≠ '0' ∧ (d :: ds).all isDigit)
    (rest : List Char) (stop : ∀ c tail, rest = c :: tail → isDigit c = false) :
    scanInteger (integer ++ rest) = .ok (integer, rest) := by
  rcases valid with rfl | ⟨d, ds, rfl, nonZero, all⟩
  · rfl
  · simp only [List.all_cons, Bool.and_eq_true] at all
    obtain ⟨taken, dropped⟩ := span_digits all.2 stop
    rw [List.cons_append, scanInteger.eq_2 _ _ nonZero, if_pos all.1, taken, dropped]

/-- The text after a number's fraction starts with its exponent or with what ends the value. -/
theorem head_after_fraction {exponent : Option (Char × Option Char × List Char)}
    (mark : ∀ e sign digits, exponent = some (e, sign, digits) → e = 'e' ∨ e = 'E')
    {rest : List Char} (stops : EndsValue rest) (c : Char) (tail : List Char)
    (split : NumberLiteral.exponentText exponent ++ rest = c :: tail) :
    c = 'e' ∨ c = 'E' ∨ c = ',' ∨ c = ']' ∨ c = '}' := by
  rcases exponent with _ | ⟨e, sign, digits⟩
  · exact .inr (.inr (stops c tail split))
  · simp only [NumberLiteral.exponentText, List.cons_append, List.cons.injEq] at split
    rw [← split.1]
    rcases mark e sign digits rfl with rfl | rfl <;> simp

/-- The text after a number's integer part starts with its fraction, its exponent, or what ends
the value. -/
theorem head_after_integer {fraction : Option (List Char)}
    {exponent : Option (Char × Option Char × List Char)}
    (mark : ∀ e sign digits, exponent = some (e, sign, digits) → e = 'e' ∨ e = 'E')
    {rest : List Char} (stops : EndsValue rest) (c : Char) (tail : List Char)
    (split : NumberLiteral.fractionText fraction ++ NumberLiteral.exponentText exponent ++ rest =
      c :: tail) :
    c = '.' ∨ c = 'e' ∨ c = 'E' ∨ c = ',' ∨ c = ']' ∨ c = '}' := by
  rcases fraction with _ | digits
  · exact .inr (head_after_fraction mark stops c tail split)
  · simp only [NumberLiteral.fractionText, List.cons_append, List.cons.injEq] at split
    exact .inl split.1.symm

theorem scanNumber_render {n : NumberLiteral} (valid : n.Valid) {rest : List Char}
    (stops : EndsValue rest) :
    scanNumber (n.render ++ rest) = .ok (n, rest) := by
  obtain ⟨negative, integer, fraction, exponent⟩ := n
  have mark e sign digits (exponent : exponent = some (e, sign, digits)) :=
    (valid.exponent e sign digits exponent).1
  have scannedExponent := scanExponent_append valid.exponent stops
  have scannedFraction := scanFraction_append valid.fraction (NumberLiteral.exponentText exponent ++ rest)
    fun c tail split => by
      rcases head_after_fraction mark stops c tail split with rfl | rfl | rfl | rfl | rfl <;> decide
  have scannedInteger := scanInteger_append valid.integer
    (NumberLiteral.fractionText fraction ++ NumberLiteral.exponentText exponent ++ rest)
    fun c tail split => by
      rcases head_after_integer mark stops c tail split with rfl | rfl | rfl | rfl | rfl | rfl <;> rfl
  simp only [List.append_assoc] at scannedInteger
  unfold scanNumber NumberLiteral.render
  cases negative
  · have unsigned : ∃ d ds, integer = d :: ds ∧ d ≠ '-' := by
      rcases valid.integer with rfl | ⟨d, ds, rfl, -, all⟩
      · exact ⟨'0', [], rfl, by decide⟩
      · refine ⟨d, ds, rfl, ?_⟩
        rintro rfl
        simp [isDigit] at all
    obtain ⟨d, ds, rfl, notMinus⟩ := unsigned
    simp only [List.cons_append] at scannedInteger
    simp [scannedInteger, scannedFraction, scannedExponent, notMinus]
  · simp [scannedInteger, scannedFraction, scannedExponent]

/-! ## Values -/

mutual

/-- The strings and numbers of a value, and the keys of its objects, are ones the scanner
accepts. -/
def Json.Valid : Json → Prop
  | .number n => n.Valid
  | .string body => validBody body = true
  | .array items => ItemsValid items
  | .object members => MembersValid members
  | _ => True

def ItemsValid : List Json → Prop
  | [] => True
  | item :: rest => item.Valid ∧ ItemsValid rest

def MembersValid : List (List Char × Json × List Char) → Prop
  | [] => True
  | (key, value, _) :: rest => validBody key = true ∧ value.Valid ∧ MembersValid rest

end

mutual

/-- Each member's raw text is its value's text without whitespace. -/
def Json.Compact : Json → Prop
  | .array items => ItemsCompact items
  | .object members => MembersCompact members
  | _ => True

def ItemsCompact : List Json → Prop
  | [] => True
  | item :: rest => item.Compact ∧ ItemsCompact rest

def MembersCompact : List (List Char × Json × List Char) → Prop
  | [] => True
  | (_, value, raw) :: rest => raw = value.render ∧ value.Compact ∧ MembersCompact rest

end

/-- A number the scanner accepts starts with a minus sign or a digit. -/
theorem NumberLiteral.render_cons {n : NumberLiteral} (valid : n.Valid) :
    ∃ c tail, n.render = c :: tail ∧ (c = '-' ∨ isDigit c = true) := by
  obtain ⟨negative, integer, fraction, exponent⟩ := n
  cases negative
  · rcases valid.integer with rfl | ⟨d, ds, rfl, -, all⟩
    · exact ⟨'0', _, rfl, .inr rfl⟩
    · simp only [List.all_cons, Bool.and_eq_true] at all
      exact ⟨d, _, rfl, .inr all.1⟩
  · exact ⟨'-', _, rfl, .inl rfl⟩

/-- The text of a value starts with a character that is neither whitespace nor one that ends a
value. -/
theorem Json.render_cons {v : Json} (valid : v.Valid) :
    ∃ c tail, v.render = c :: tail ∧ isSpace c = false ∧ c ≠ ',' ∧ c ≠ ']' ∧ c ≠ '}' := by
  cases v with
  | null => exact ⟨'n', _, rfl, rfl, by decide, by decide, by decide⟩
  | bool value => cases value <;> exact ⟨_, _, rfl, rfl, by decide, by decide, by decide⟩
  | number n =>
      obtain ⟨c, tail, rendered, start⟩ := NumberLiteral.render_cons valid
      refine ⟨c, tail, rendered, ?_⟩
      rcases start with rfl | digit
      · decide
      · refine ⟨?_, ?_, ?_, ?_⟩ <;> try (rintro rfl; exact absurd digit (by decide))
        cases space : isSpace c
        · rfl
        · simp only [isSpace, Bool.or_eq_true, beq_iff_eq] at space
          rcases space with ((rfl | rfl) | rfl) | rfl <;> exact absurd digit (by decide)
  | string body => exact ⟨'"', _, rfl, rfl, by decide, by decide, by decide⟩
  | array items => exact ⟨'[', _, rfl, rfl, by decide, by decide, by decide⟩
  | object members => exact ⟨'\x7b', _, rfl, rfl, by decide, by decide, by decide⟩

theorem parseValue_number {c : Char} (start : c = '-' ∨ isDigit c = true) (fuel depth : Nat)
    (rest : List Char) :
    parseValue (fuel + 1) depth (c :: rest) =
      match scanNumber (c :: rest) with
      | .ok (n, after) => .ok (.number n, after)
      | .error e => .error e := by
  rcases start with rfl | digit
  · rfl
  · have notSpace : isSpace c = false := by
      cases space : isSpace c
      · rfl
      · simp only [isSpace, Bool.or_eq_true, beq_iff_eq] at space
        rcases space with ((rfl | rfl) | rfl) | rfl <;> exact absurd digit (by decide)
    have notStart : c ≠ '\x7b' ∧ c ≠ '[' ∧ c ≠ '"' := by
      refine ⟨?_, ?_, ?_⟩ <;> rintro rfl <;> exact absurd digit (by decide)
    rw [parseValue, skipSpace_cons_of_not_space c rest notSpace]
    exact (if_neg notStart.1).trans ((if_neg notStart.2.1).trans
      ((if_neg notStart.2.2).trans (if_pos (Or.inr digit))))

theorem parseValue_string (fuel depth : Nat) (input : List Char) :
    parseValue (fuel + 1) depth ('"' :: input) =
      match scanString input with
      | .ok (body, after) => .ok (.string body, after)
      | .error e => .error e :=
  rfl

theorem parseValue_array (fuel : Nat) {depth : Nat} (room : depth < maxNestingDepth)
    (input : List Char) :
    parseValue (fuel + 1) depth ('[' :: input) =
      match skipSpace input with
      | ']' :: after => .ok (.array [], after)
      | _ =>
        match parseItems fuel (depth + 1) input with
        | .ok (items, after) => .ok (.array items, after)
        | .error e => .error e :=
  if_neg (Nat.not_le.mpr room)

theorem parseValue_object (fuel : Nat) {depth : Nat} (room : depth < maxNestingDepth)
    (input : List Char) :
    parseValue (fuel + 1) depth ('\x7b' :: input) =
      match skipSpace input with
      | '\x7d' :: after => .ok (.object [], after)
      | _ =>
        match parseMembers fuel (depth + 1) input with
        | .ok (members, after) => .ok (.object members, after)
        | .error e => .error e :=
  if_neg (Nat.not_le.mpr room)

theorem take_raw (text rest : List Char) :
    (text ++ rest).take ((text ++ rest).length - rest.length) = text := by
  simp

theorem endsValue_cons {c : Char} (close : c = ',' ∨ c = ']' ∨ c = '}') (rest : List Char) :
    EndsValue (c :: rest) := by
  rintro c' tail ⟨⟩
  exact close

@[simp]
theorem skipSpace_render {v : Json} (valid : v.Valid) (rest : List Char) :
    skipSpace (v.render ++ rest) = v.render ++ rest := by
  obtain ⟨c, tail, rendered, notSpace, -⟩ := Json.render_cons valid
  rw [rendered, List.cons_append, skipSpace_cons_of_not_space _ _ notSpace]

theorem renderMembers_cons (key : List Char) (value : Json) (raw : List Char)
    (members : List (List Char × Json × List Char)) :
    ∃ tail, renderMembers ((key, value, raw) :: members) =
      '"' :: (key ++ '"' :: ':' :: (value.render ++ tail)) := by
  cases members with
  | nil => exact ⟨[], by simp [renderMembers]⟩
  | cons member more => exact ⟨',' :: renderMembers (member :: more), by simp [renderMembers]⟩

theorem renderItems_cons (item : Json) (items : List Json) :
    ∃ tail, renderItems (item :: items) = item.render ++ tail := by
  cases items with
  | nil => exact ⟨[], by simp [renderItems]⟩
  | cons next more => exact ⟨_, rfl⟩

mutual

theorem parseValue_render (v : Json) (fuel depth : Nat) (rest : List Char) (valid : v.Valid)
    (compact : v.Compact) (nested : depth + v.depth ≤ maxNestingDepth)
    (enough : 2 * v.render.length < fuel) (stops : EndsValue rest) :
    parseValue fuel depth (v.render ++ rest) = .ok (v, rest) := by
  obtain ⟨fuel, rfl⟩ : ∃ f, fuel = f + 1 := ⟨fuel - 1, by omega⟩
  match v with
  | .null => rfl
  | .bool true => rfl
  | .bool false => rfl
  | .number n =>
      obtain ⟨c, tail, rendered, start⟩ := NumberLiteral.render_cons valid
      have scanned := scanNumber_render valid stops
      rw [rendered, List.cons_append] at scanned
      simp only [Json.render, rendered, List.cons_append, parseValue_number start, scanned]
  | .string body =>
      simp only [Json.render, List.cons_append, List.append_assoc, List.singleton_append,
        List.nil_append]
      rw [parseValue_string, scanString_append _ valid]
  | .array [] =>
      simp only [Json.depth] at nested
      exact parseValue_array fuel (by omega) _
  | .array (item :: items) =>
      simp only [Json.depth] at nested
      obtain ⟨c, tail, rendered, notSpace, -, notClose, -⟩ := Json.render_cons valid.1
      obtain ⟨tail', startsWith⟩ := renderItems_cons item items
      rw [rendered, List.cons_append] at startsWith
      have parsed := parseItems_render (item :: items) fuel (depth + 1) rest (List.cons_ne_nil _ _)
        valid compact (by omega)
        (by simp only [Json.render, List.length_cons, List.length_append] at enough; omega)
      simp only [Json.render, List.cons_append, List.append_assoc, List.singleton_append,
        List.nil_append]
      rw [parseValue_array fuel (by omega), startsWith, List.cons_append,
        skipSpace_cons_of_not_space c _ notSpace]
      split
      · rename_i heq
        cases heq
        exact absurd rfl notClose
      · rw [← List.cons_append, ← startsWith, parsed]
  | .object [] =>
      simp only [Json.depth] at nested
      exact parseValue_object fuel (by omega) _
  | .object ((key, value, raw) :: members) =>
      simp only [Json.depth] at nested
      have parsed := parseMembers_render ((key, value, raw) :: members) fuel (depth + 1) rest
        (List.cons_ne_nil _ _) valid compact (by omega)
        (by simp only [Json.render, List.length_cons, List.length_append] at enough; omega)
      simp only [Json.render, List.cons_append, List.append_assoc, List.singleton_append,
        List.nil_append]
      obtain ⟨tail, startsWith⟩ := renderMembers_cons key value raw members
      have skipped : skipSpace (renderMembers ((key, value, raw) :: members) ++ '\x7d' :: rest) =
          renderMembers ((key, value, raw) :: members) ++ '\x7d' :: rest := by
        rw [startsWith, List.cons_append, skipSpace_cons_of_not_space '"' _ rfl]
      rw [parseValue_object fuel (by omega), skipped]
      split
      · rename_i heq
        rw [startsWith, List.cons_append] at heq
        cases heq
      · rw [parsed]

theorem parseItems_render (items : List Json) (fuel depth : Nat) (rest : List Char)
    (nonEmpty : items ≠ []) (valid : ItemsValid items) (compact : ItemsCompact items)
    (nested : depth + itemsDepth items ≤ maxNestingDepth)
    (enough : 2 * (renderItems items).length + 1 < fuel) :
    parseItems fuel depth (renderItems items ++ ']' :: rest) = .ok (items, rest) := by
  obtain ⟨fuel, rfl⟩ : ∃ f, fuel = f + 1 := ⟨fuel - 1, by omega⟩
  match items with
  | [item] =>
      simp only [itemsDepth] at nested
      have parsed := parseValue_render item fuel depth (']' :: rest) valid.1 compact.1 (by omega)
        (by simp only [renderItems] at enough; omega) (endsValue_cons (by simp) rest)
      simp only [renderItems, parseItems, parsed]
      rw [skipSpace_cons_of_not_space ']' _ rfl]
      rfl
  | item :: next :: more =>
      simp only [itemsDepth] at nested
      have parsedRest := parseItems_render (next :: more) fuel depth rest (List.cons_ne_nil _ _)
        valid.2 compact.2 (by simp only [itemsDepth]; omega)
        (by simp only [renderItems, List.length_append, List.length_cons] at enough; omega)
      have parsed := parseValue_render item fuel depth
        (',' :: (renderItems (next :: more) ++ ']' :: rest)) valid.1 compact.1 (by omega)
        (by simp only [renderItems, List.length_append, List.length_cons] at enough; omega)
        (endsValue_cons (by simp) _)
      simp only [renderItems, List.append_assoc, List.cons_append, parseItems, parsed]
      rw [skipSpace_cons_of_not_space ',' _ rfl]
      simp [parsedRest]

theorem parseMembers_render (members : List (List Char × Json × List Char)) (fuel depth : Nat)
    (rest : List Char) (nonEmpty : members ≠ []) (valid : MembersValid members)
    (compact : MembersCompact members) (nested : depth + membersDepth members ≤ maxNestingDepth)
    (enough : 2 * (renderMembers members).length + 1 < fuel) :
    parseMembers fuel depth (renderMembers members ++ '\x7d' :: rest) = .ok (members, rest) := by
  obtain ⟨fuel, rfl⟩ : ∃ f, fuel = f + 1 := ⟨fuel - 1, by omega⟩
  match members with
  | [(key, value, raw)] =>
      simp only [membersDepth] at nested
      obtain ⟨keyValid, valueValid, -⟩ := valid
      obtain ⟨rfl, valueCompact, -⟩ := compact
      have parsed := parseValue_render value fuel depth ('\x7d' :: rest) valueValid valueCompact
        (by omega) (by simp only [renderMembers, List.length_cons, List.length_append] at enough; omega)
        (endsValue_cons (by simp) rest)
      simp only [renderMembers, List.cons_append, List.append_assoc]
      rw [parseMembers, skipSpace_cons_of_not_space '"' _ rfl]
      simp only [scanString_append _ keyValid]
      rw [skipSpace_cons_of_not_space ':' _ rfl]
      simp only [skipSpace_render valueValid, parsed, take_raw]
      rw [skipSpace_cons_of_not_space '\x7d' _ rfl]
      rfl
  | (key, value, raw) :: member :: more =>
      simp only [membersDepth] at nested
      obtain ⟨keyValid, valueValid, membersValid⟩ := valid
      obtain ⟨rfl, valueCompact, membersCompact⟩ := compact
      have parsedRest := parseMembers_render (member :: more) fuel depth rest (List.cons_ne_nil _ _)
        membersValid membersCompact (by simp only [membersDepth]; omega)
        (by simp only [renderMembers, List.length_cons, List.length_append] at enough; omega)
      have parsed := parseValue_render value fuel depth
        (',' :: (renderMembers (member :: more) ++ '\x7d' :: rest)) valueValid valueCompact
        (by omega) (by simp only [renderMembers, List.length_cons, List.length_append] at enough; omega)
        (endsValue_cons (by simp) _)
      simp only [renderMembers, List.cons_append, List.append_assoc]
      simp [parseMembers, isSpace, scanString_append _ keyValid, skipSpace_render valueValid, parsed,
        take_raw, parsedRest]

end

/-- `parse` reads back the text `render` writes, when it nests within the scanner's limit. -/
theorem parse_render {v : Json} (valid : v.Valid) (compact : v.Compact)
    (nested : v.depth ≤ maxNestingDepth) : parse v.render = .ok v := by
  have parsed := parseValue_render v (2 * v.render.length + 2) 0 [] valid compact (by omega)
    (by omega) (by rintro _ _ ⟨⟩)
  rw [List.append_nil] at parsed
  simp [parse, parsed, skipSpace]

/-! ## What the parser returns -/

theorem prependScanned_eq_ok {piece body after : List Char}
    {scanned : Except JsonError (List Char × List Char)}
    (prepended : prependScanned piece scanned = .ok (body, after)) :
    ∃ body', scanned = .ok (body', after) ∧ body = piece ++ body' := by
  match scanned, prepended with
  | .ok (body', after'), prepended =>
      cases prepended
      exact ⟨body', rfl, rfl⟩

mutual

/-- What the string scanner accepts is a valid body and its closing quote. -/
theorem scanString_eq_ok : (input : List Char) → {body after : List Char} →
    scanString input = .ok (body, after) → input = body ++ '"' :: after ∧ validBody body = true
  | [], _, _, scanned => by cases scanned
  | c :: input, body, after, scanned => by
      rw [scanString] at scanned
      by_cases quote : c = '"'
      · rw [if_pos quote] at scanned
        cases scanned
        exact ⟨by rw [quote]; rfl, rfl⟩
      · by_cases backslash : c = '\\'
        · subst backslash
          rw [if_neg quote, if_pos rfl] at scanned
          obtain ⟨escaped, rfl, rfl, valid⟩ := scanEscape_eq_ok input scanned
          exact ⟨rfl, by rw [validBody, if_pos rfl, valid]⟩
        · rw [if_neg quote, if_neg backslash] at scanned
          by_cases control : c.toNat < 0x20
          · rw [if_pos control] at scanned
            cases scanned
          · rw [if_neg control] at scanned
            obtain ⟨body', restScanned, rfl⟩ := prependScanned_eq_ok scanned
            obtain ⟨rfl, valid⟩ := scanString_eq_ok input restScanned
            refine ⟨rfl, ?_⟩
            rw [List.singleton_append, validBody, if_neg backslash, valid]
            simp [quote]
            omega

theorem scanEscape_eq_ok : (input : List Char) → {body after : List Char} →
    scanEscape input = .ok (body, after) →
      ∃ escaped, body = '\\' :: escaped ∧ input = escaped ++ '"' :: after ∧
        validEscape escaped = true
  | [], _, _, scanned => by cases scanned
  | e :: input, body, after, scanned => by
      rw [scanEscape] at scanned
      by_cases u : e = 'u'
      · subst u
        rw [if_pos rfl] at scanned
        obtain ⟨unit, rfl, rfl, valid⟩ := scanUnit_eq_ok input scanned
        exact ⟨'u' :: unit, rfl, rfl, by rw [validEscape, if_pos rfl, valid]⟩
      · rw [if_neg u] at scanned
        by_cases simple : isSimpleEscape e = true
        · rw [if_pos simple] at scanned
          obtain ⟨body', restScanned, rfl⟩ := prependScanned_eq_ok scanned
          obtain ⟨rfl, valid⟩ := scanString_eq_ok input restScanned
          exact ⟨e :: body', rfl, rfl, by rw [validEscape, if_neg u, simple, valid]; rfl⟩
        · rw [if_neg simple] at scanned
          cases scanned

theorem scanUnit_eq_ok : (input : List Char) → {body after : List Char} →
    scanUnit input = .ok (body, after) →
      ∃ unit, body = '\\' :: 'u' :: unit ∧ input = unit ++ '"' :: after ∧ validUnit unit = true
  | a :: b :: c :: d :: input, body, after, scanned => by
      rw [scanUnit] at scanned
      by_cases hex : (isHexDigit a && isHexDigit b && isHexDigit c && isHexDigit d) = true
      · rw [if_pos hex] at scanned
        obtain ⟨body', restScanned, rfl⟩ := prependScanned_eq_ok scanned
        obtain ⟨rfl, valid⟩ := scanString_eq_ok input restScanned
        exact ⟨a :: b :: c :: d :: body', rfl, rfl, by rw [validUnit, hex, valid]; rfl⟩
      · rw [if_neg hex] at scanned
        cases scanned
  | [], _, _, scanned | [_], _, _, scanned | [_, _], _, _, scanned | [_, _, _], _, _, scanned => by
      cases scanned

end

theorem scanDigits_eq_ok {input digits after : List Char}
    (scanned : scanDigits input = .ok (digits, after)) :
    input = digits ++ after ∧ digits ≠ [] ∧ digits.all isDigit := by
  unfold scanDigits at scanned
  split at scanned
  · cases scanned
  · next _ nonEmpty =>
      cases scanned
      exact ⟨(List.takeWhile_append_dropWhile _ _).symm, nonEmpty, List.all_takeWhile⟩

theorem scanInteger_eq_ok {input integer after : List Char}
    (scanned : scanInteger input = .ok (integer, after)) :
    input = integer ++ after ∧
      (integer = ['0'] ∨ ∃ d ds, integer = d :: ds ∧ d ≠ '0' ∧ (d :: ds).all isDigit) := by
  unfold scanInteger at scanned
  split at scanned
  · cases scanned
    exact ⟨rfl, .inl rfl⟩
  · next c rest nonZero =>
      split at scanned
      · next digit =>
          cases scanned
          refine ⟨by simp, .inr ⟨c, _, rfl, nonZero, ?_⟩⟩
          simp [digit]
      · cases scanned
  · cases scanned

theorem scanFraction_eq_ok {input after : List Char} {fraction : Option (List Char)}
    (scanned : scanFraction input = .ok (fraction, after)) :
    input = NumberLiteral.fractionText fraction ++ after ∧
      ∀ digits, fraction = some digits → digits ≠ [] ∧ digits.all isDigit := by
  unfold scanFraction at scanned
  split at scanned
  · split at scanned
    · next digits after' digitsScanned =>
        cases scanned
        obtain ⟨rfl, nonEmpty, all⟩ := scanDigits_eq_ok digitsScanned
        exact ⟨rfl, fun _ same => Option.some_injective _ same ▸ ⟨nonEmpty, all⟩⟩
    · cases scanned
  · cases scanned
    exact ⟨rfl, fun _ none => by cases none⟩

theorem scanSign_spec (text : List Char) :
    (scanSign text).1.toList ++ (scanSign text).2 = text ∧
      ((scanSign text).1 = none ∨ (scanSign text).1 = some '+' ∨ (scanSign text).1 = some '-') := by
  unfold scanSign
  split <;> simp

theorem scanExponent_eq_ok {input after : List Char}
    {exponent : Option (Char × Option Char × List Char)}
    (scanned : scanExponent input = .ok (exponent, after)) :
    input = NumberLiteral.exponentText exponent ++ after ∧
      ∀ e sign digits, exponent = some (e, sign, digits) →
        (e = 'e' ∨ e = 'E') ∧ (sign = none ∨ sign = some '+' ∨ sign = some '-') ∧ digits ≠ [] ∧
          digits.all isDigit := by
  unfold scanExponent at scanned
  split at scanned
  · next e rest =>
      split at scanned
      · next mark =>
          obtain ⟨signSplit, signKind⟩ := scanSign_spec rest
          split at scanned
          · next digits after' digitsScanned =>
              cases scanned
              obtain ⟨unsigned, nonEmpty, all⟩ := scanDigits_eq_ok digitsScanned
              refine ⟨?_, fun _ _ _ same => ?_⟩
              · simp only [NumberLiteral.exponentText, List.cons_append, List.append_assoc, ← unsigned,
                  signSplit]
              · cases same
                exact ⟨mark, signKind, nonEmpty, all⟩
          · cases scanned
      · cases scanned
        exact ⟨rfl, fun _ _ _ none => by cases none⟩
  · cases scanned
    exact ⟨rfl, fun _ _ _ none => by cases none⟩

/-- What the number scanner accepts is a valid number's text. -/
theorem scanNumber_eq_ok {input after : List Char} {n : NumberLiteral}
    (scanned : scanNumber input = .ok (n, after)) : input = n.render ++ after ∧ n.Valid := by
  have signed : input = (if input.head? = some '-' then ['-'] else []) ++
      (if input.head? = some '-' then input.tail else input) := by
    split
    · next minus =>
        cases input with
        | nil => cases minus
        | cons c tail =>
            cases minus
            rfl
    · rfl
  unfold scanNumber at scanned
  dsimp only at scanned
  split at scanned
  · cases scanned
  · next integer afterInteger integerScanned =>
      split at scanned
      · cases scanned
      · next fraction afterFraction fractionScanned =>
          split at scanned
          · cases scanned
          · next exponent after' exponentScanned =>
              cases scanned
              obtain ⟨integerSplit, integerValid⟩ := scanInteger_eq_ok integerScanned
              obtain ⟨fractionSplit, fractionValid⟩ := scanFraction_eq_ok fractionScanned
              obtain ⟨exponentSplit, exponentValid⟩ := scanExponent_eq_ok exponentScanned
              refine ⟨?_, ⟨integerValid, fractionValid, exponentValid⟩⟩
              rw [integerSplit, fractionSplit, exponentSplit] at signed
              refine signed.trans ?_
              simp [NumberLiteral.render]

theorem parseLiteral_eq_ok {value v : Json} {literal rest after : List Char}
    (parsed : parseLiteral value literal rest = .ok (v, after)) : v = value := by
  unfold parseLiteral at parsed
  split at parsed <;> cases parsed
  rfl

/-- Every value the parser returns inside at most `maxNestingDepth` open arrays and objects, and
every item and member, has strings and numbers the scanner accepts and nests within the limit. -/
theorem parse_valid_of_fuel (fuel : Nat) :
    (∀ {depth input v after}, depth ≤ maxNestingDepth →
      parseValue fuel depth input = .ok (v, after) → v.Valid ∧ depth + v.depth ≤ maxNestingDepth) ∧
    (∀ {depth input items after}, depth ≤ maxNestingDepth →
      parseItems fuel depth input = .ok (items, after) →
        ItemsValid items ∧ depth + itemsDepth items ≤ maxNestingDepth) ∧
    (∀ {depth input members after}, depth ≤ maxNestingDepth →
      parseMembers fuel depth input = .ok (members, after) →
        MembersValid members ∧ depth + membersDepth members ≤ maxNestingDepth) := by
  induction fuel with
  | zero => exact ⟨fun _ => nofun, fun _ => nofun, fun _ => nofun⟩
  | succ fuel inductionHypothesis =>
    obtain ⟨valueValid, itemsValid, membersValid⟩ := inductionHypothesis
    refine ⟨fun within parsed => ?_, fun within parsed => ?_, fun within parsed => ?_⟩
    · rw [parseValue] at parsed
      split at parsed
      · cases parsed
      rename_i c rest _
      by_cases brace : c = '\x7b'
      · rw [if_pos brace] at parsed
        split at parsed
        · cases parsed
        next room =>
        split at parsed
        · cases parsed
          exact ⟨trivial, by simp only [Json.depth, membersDepth]; omega⟩
        · split at parsed
          · next membersParsed =>
              cases parsed
              have members := membersValid (by omega) membersParsed
              exact ⟨members.1, by simp only [Json.depth]; omega⟩
          · cases parsed
      rw [if_neg brace] at parsed
      by_cases bracket : c = '['
      · rw [if_pos bracket] at parsed
        split at parsed
        · cases parsed
        next room =>
        split at parsed
        · cases parsed
          exact ⟨trivial, by simp only [Json.depth, itemsDepth]; omega⟩
        · split at parsed
          · next itemsParsed =>
              cases parsed
              have items := itemsValid (by omega) itemsParsed
              exact ⟨items.1, by simp only [Json.depth]; omega⟩
          · cases parsed
      rw [if_neg bracket] at parsed
      by_cases quote : c = '"'
      · rw [if_pos quote] at parsed
        split at parsed
        · next scanned =>
            cases parsed
            exact ⟨(scanString_eq_ok _ scanned).2, by simpa only [Json.depth] using within⟩
        · cases parsed
      rw [if_neg quote] at parsed
      by_cases number : c = '-' ∨ isDigit c
      · rw [if_pos number] at parsed
        split at parsed
        · next scanned =>
            cases parsed
            exact ⟨(scanNumber_eq_ok scanned).2, by simpa only [Json.depth] using within⟩
        · cases parsed
      rw [if_neg number] at parsed
      repeat' split at parsed
      all_goals first
        | cases parsed
        | obtain rfl := parseLiteral_eq_ok parsed
          exact ⟨trivial, by simpa only [Json.depth] using within⟩
    · rw [parseItems] at parsed
      split at parsed
      · cases parsed
      · next itemParsed =>
          have item := valueValid within itemParsed
          split at parsed
          · split at parsed
            · next restParsed =>
                cases parsed
                have rest := itemsValid within restParsed
                exact ⟨⟨item.1, rest.1⟩, by simp only [itemsDepth]; omega⟩
            · cases parsed
          · cases parsed
            exact ⟨⟨item.1, trivial⟩, by simp only [itemsDepth]; omega⟩
          · cases parsed
          · cases parsed
    · rw [parseMembers] at parsed
      split at parsed
      · split at parsed
        · cases parsed
        · next keyScanned =>
            split at parsed
            · split at parsed
              · cases parsed
              · next valueParsed =>
                  have value := valueValid within valueParsed
                  split at parsed
                  · split at parsed
                    · next restParsed =>
                        cases parsed
                        have rest := membersValid within restParsed
                        exact ⟨⟨(scanString_eq_ok _ keyScanned).2, value.1, rest.1⟩,
                          by simp only [membersDepth]; omega⟩
                    · cases parsed
                  · cases parsed
                    exact ⟨⟨(scanString_eq_ok _ keyScanned).2, value.1, trivial⟩,
                      by simp only [membersDepth]; omega⟩
                  · cases parsed
                  · cases parsed
            · cases parsed
            · cases parsed
      · cases parsed
      · cases parsed

/-- What `parse` returns has strings and numbers the scanner accepts, and nests within the
scanner's limit. -/
theorem parse_valid {text : List Char} {v : Json} (parsed : parse text = .ok v) :
    v.Valid ∧ v.depth ≤ maxNestingDepth := by
  unfold parse at parsed
  split at parsed
  · cases parsed
  · next valueParsed =>
      split at parsed
      · cases parsed
        simpa using (parse_valid_of_fuel _).1 (Nat.zero_le _) valueParsed
      · cases parsed

/-! ## The fuel suffices

`parse` gives the parser two units of fuel per character. Each call that recurses has read at
least one character first, so the fuel never runs out: `parse` reports only the scanner's own
errors. -/

theorem length_skipSpace_le (input : List Char) : (skipSpace input).length ≤ input.length := by
  induction input with
  | nil => exact le_rfl
  | cons c input inductionHypothesis =>
      rw [skipSpace]
      split
      · exact Nat.le_succ_of_le inductionHypothesis
      · exact le_rfl

theorem length_lt_of_skipSpace_eq_cons {input rest : List Char} {c : Char}
    (skipped : skipSpace input = c :: rest) : rest.length < input.length := by
  have shortened := length_skipSpace_le input
  rw [skipped] at shortened
  exact shortened

theorem prependScanned_ne_outOfFuel {piece : List Char}
    {scanned : Except JsonError (List Char × List Char)} (noFuelError : scanned ≠ .error .outOfFuel) :
    prependScanned piece scanned ≠ .error .outOfFuel := by
  cases scanned with
  | ok => nofun
  | error => exact noFuelError

theorem hexError_ne_outOfFuel (chars : List Char) : hexError chars ≠ .outOfFuel := by
  unfold hexError
  split <;> nofun

mutual

theorem scanString_ne_outOfFuel : (input : List Char) → scanString input ≠ .error .outOfFuel
  | [] => nofun
  | c :: rest => by
      rw [scanString]
      by_cases quote : c = '"'
      · rw [if_pos quote]
        nofun
      rw [if_neg quote]
      by_cases backslash : c = '\\'
      · rw [if_pos backslash]
        exact scanEscape_ne_outOfFuel rest
      rw [if_neg backslash]
      by_cases control : c.toNat < 0x20
      · rw [if_pos control]
        nofun
      rw [if_neg control]
      exact prependScanned_ne_outOfFuel (scanString_ne_outOfFuel rest)

theorem scanEscape_ne_outOfFuel : (input : List Char) → scanEscape input ≠ .error .outOfFuel
  | [] => nofun
  | e :: rest => by
      rw [scanEscape]
      by_cases u : e = 'u'
      · rw [if_pos u]
        exact scanUnit_ne_outOfFuel rest
      rw [if_neg u]
      by_cases simple : isSimpleEscape e = true
      · rw [if_pos simple]
        exact prependScanned_ne_outOfFuel (scanString_ne_outOfFuel rest)
      rw [if_neg simple]
      nofun

theorem scanUnit_ne_outOfFuel : (input : List Char) → scanUnit input ≠ .error .outOfFuel
  | a :: b :: c :: d :: rest => by
      rw [scanUnit]
      split
      · exact prependScanned_ne_outOfFuel (scanString_ne_outOfFuel rest)
      · exact fun failed => hexError_ne_outOfFuel _ (Except.error.inj failed)
  | [] | [_] | [_, _] | [_, _, _] => fun failed => hexError_ne_outOfFuel _ (Except.error.inj failed)

end

theorem scanDigits_ne_outOfFuel (input : List Char) : scanDigits input ≠ .error .outOfFuel := by
  unfold scanDigits
  split
  · cases input <;> nofun
  · nofun

theorem scanInteger_ne_outOfFuel (input : List Char) : scanInteger input ≠ .error .outOfFuel := by
  intro failed
  unfold scanInteger at failed
  split at failed
  · cases failed
  · split at failed <;> cases failed
  · cases failed

theorem scanFraction_ne_outOfFuel (input : List Char) : scanFraction input ≠ .error .outOfFuel := by
  intro failed
  unfold scanFraction at failed
  split at failed
  · split at failed
    · cases failed
    · next scanned =>
        cases failed
        exact scanDigits_ne_outOfFuel _ scanned
  · cases failed

theorem scanExponent_ne_outOfFuel (input : List Char) : scanExponent input ≠ .error .outOfFuel := by
  intro failed
  unfold scanExponent at failed
  split at failed
  · split at failed
    · split at failed
      · cases failed
      · next scanned =>
          cases failed
          exact scanDigits_ne_outOfFuel _ scanned
    · cases failed
  · cases failed

theorem scanNumber_ne_outOfFuel (input : List Char) : scanNumber input ≠ .error .outOfFuel := by
  intro failed
  unfold scanNumber at failed
  dsimp only at failed
  split at failed
  · next scanned =>
      cases failed
      exact scanInteger_ne_outOfFuel _ scanned
  · split at failed
    · next scanned =>
        cases failed
        exact scanFraction_ne_outOfFuel _ scanned
    · split at failed
      · next scanned =>
          cases failed
          exact scanExponent_ne_outOfFuel _ scanned
      · cases failed

/-- What a parser's result on `input` says when the fuel has not run out: an error of the
scanner, or a value followed by a shorter text. -/
def Consumes {α : Type} (input : List Char) : Except JsonError (α × List Char) → Prop
  | .ok (_, after) => after.length < input.length
  | .error e => e ≠ .outOfFuel

theorem Consumes.mono {α : Type} {input input' : List Char} {result : Except JsonError (α × List Char)}
    (consumes : Consumes input result) (longer : input.length ≤ input'.length) :
    Consumes input' result := by
  match result, consumes with
  | .ok _, consumes => exact Nat.lt_of_lt_of_le consumes longer
  | .error _, consumes => exact consumes

theorem parseLiteral_consumes (value : Json) (literal : List Char) (c : Char) (rest : List Char) :
    Consumes (c :: rest) (parseLiteral value literal rest) := by
  induction literal generalizing c rest with
  | nil => exact Nat.lt_succ_self _
  | cons l literal inductionHypothesis =>
      cases rest with
      | nil => nofun
      | cons d rest =>
          by_cases same : d = l
          · have read : parseLiteral value (l :: literal) (d :: rest) = parseLiteral value literal rest := by
              simp only [parseLiteral, scanLiteral, if_pos same]
            rw [read]
            exact (inductionHypothesis d rest).mono (Nat.le_succ _)
          · have refused : parseLiteral value (l :: literal) (d :: rest) = .error (.invalidCharacter d) := by
              simp only [parseLiteral, scanLiteral, if_neg same]
            rw [refused]
            nofun

/-- Two units of fuel per character are enough for a value, and one more for the items or the
members after an opening bracket or brace. -/
theorem parse_consumes_of_fuel (fuel : Nat) :
    (∀ depth input, 2 * input.length < fuel → Consumes input (parseValue fuel depth input)) ∧
    (∀ depth input, 2 * input.length + 1 < fuel → Consumes input (parseItems fuel depth input)) ∧
    (∀ depth input, 2 * input.length + 1 < fuel →
      Consumes input (parseMembers fuel depth input)) := by
  induction fuel with
  | zero => exact ⟨fun _ _ enough => absurd enough (by omega),
      fun _ _ enough => absurd enough (by omega), fun _ _ enough => absurd enough (by omega)⟩
  | succ fuel inductionHypothesis =>
    obtain ⟨valueConsumes, itemsConsumes, membersConsumes⟩ := inductionHypothesis
    refine ⟨fun depth input enough => ?_, fun depth input enough => ?_,
      fun depth input enough => ?_⟩
    · rw [parseValue]
      split
      · nofun
      next c rest skipped =>
      have shorter := length_lt_of_skipSpace_eq_cons skipped
      by_cases brace : c = '\x7b'
      · rw [if_pos brace]
        split
        · nofun
        split
        · next closed => exact Nat.lt_trans (length_lt_of_skipSpace_eq_cons closed) shorter
        · have membersResult := membersConsumes (depth + 1) rest (by omega)
          split
          · next parsed =>
              rw [parsed] at membersResult
              exact Nat.lt_trans membersResult shorter
          · next parsed =>
              rw [parsed] at membersResult
              exact membersResult
      rw [if_neg brace]
      by_cases bracket : c = '['
      · rw [if_pos bracket]
        split
        · nofun
        split
        · next closed => exact Nat.lt_trans (length_lt_of_skipSpace_eq_cons closed) shorter
        · have itemsResult := itemsConsumes (depth + 1) rest (by omega)
          split
          · next parsed =>
              rw [parsed] at itemsResult
              exact Nat.lt_trans itemsResult shorter
          · next parsed =>
              rw [parsed] at itemsResult
              exact itemsResult
      rw [if_neg bracket]
      by_cases quote : c = '"'
      · rw [if_pos quote]
        split
        · next scanned =>
            have read := congrArg List.length (scanString_eq_ok _ scanned).1
            simp only [List.length_append, List.length_cons] at read
            show _ < _
            omega
        · next scanned => exact fun fuelError => scanString_ne_outOfFuel rest (fuelError ▸ scanned)
      rw [if_neg quote]
      by_cases number : c = '-' ∨ isDigit c
      · rw [if_pos number]
        split
        · next scanned =>
            obtain ⟨read, valid⟩ := scanNumber_eq_ok scanned
            obtain ⟨d, tail, rendered, -⟩ := NumberLiteral.render_cons valid
            have length := congrArg List.length read
            rw [rendered] at length
            simp only [List.length_append, List.length_cons] at length
            show _ < _
            omega
        · next scanned => exact fun fuelError => scanNumber_ne_outOfFuel _ (fuelError ▸ scanned)
      rw [if_neg number]
      split
      · exact (parseLiteral_consumes _ _ c rest).mono shorter
      split
      · exact (parseLiteral_consumes _ _ c rest).mono shorter
      split
      · exact (parseLiteral_consumes _ _ c rest).mono shorter
      · nofun
    · rw [parseItems]
      have valueResult := valueConsumes depth input (by omega)
      split
      · next parsed =>
          rw [parsed] at valueResult
          exact valueResult
      next parsed =>
      rw [parsed] at valueResult
      split
      · next rest skipped =>
          have shorter := Nat.lt_trans (length_lt_of_skipSpace_eq_cons skipped) valueResult
          have itemsResult := itemsConsumes depth rest (by omega)
          split
          · next parsedRest =>
              rw [parsedRest] at itemsResult
              exact Nat.lt_trans itemsResult shorter
          · next parsedRest =>
              rw [parsedRest] at itemsResult
              exact itemsResult
      · next skipped => exact Nat.lt_trans (length_lt_of_skipSpace_eq_cons skipped) valueResult
      · nofun
      · nofun
    · rw [parseMembers]
      split
      · next rest skipped =>
          have shorter := length_lt_of_skipSpace_eq_cons skipped
          split
          · next scanned => exact fun fuelError => scanString_ne_outOfFuel rest (fuelError ▸ scanned)
          next key afterKey scanned =>
          have keyRead := congrArg List.length (scanString_eq_ok _ scanned).1
          simp only [List.length_append, List.length_cons] at keyRead
          split
          · next rest' colon =>
              have colonShorter := length_lt_of_skipSpace_eq_cons colon
              have valueResult := valueConsumes depth (skipSpace rest')
                (by have := length_skipSpace_le rest'; omega)
              split
              · next parsed =>
                  rw [parsed] at valueResult
                  exact valueResult
              next parsed =>
              rw [parsed] at valueResult
              have valueShorter := Nat.lt_of_lt_of_le valueResult (length_skipSpace_le rest')
              split
              · next rest'' comma =>
                  have commaShorter := length_lt_of_skipSpace_eq_cons comma
                  have membersResult := membersConsumes depth rest'' (by omega)
                  split
                  · next parsedRest =>
                      rw [parsedRest] at membersResult
                      exact Nat.lt_trans membersResult (by omega)
                  · next parsedRest =>
                      rw [parsedRest] at membersResult
                      exact membersResult
              · next closed =>
                  exact Nat.lt_trans (length_lt_of_skipSpace_eq_cons closed) (by omega)
              · nofun
              · nofun
          · nofun
          · nofun
      · nofun
      · nofun

/-- `parse` never runs out of fuel: every error it reports is one the scanner raises. -/
theorem parse_ne_outOfFuel (text : List Char) : parse text ≠ .error .outOfFuel := by
  have valueResult := (parse_consumes_of_fuel (2 * text.length + 2)).1 0 text (by omega)
  unfold parse
  split
  · next parsed =>
      rw [parsed] at valueResult
      exact fun failed => valueResult (Except.error.inj failed)
  · split <;> nofun

/-! ## Compacting -/

/-- HTML escaping changes no character other than the three HTML characters and the two
separators. -/
theorem escapeHTMLChar_of_plain {c : Char} (notHTML : c ≠ '<' ∧ c ≠ '>' ∧ c ≠ '&')
    (notSeparator : c.toNat ≠ 0x2028 ∧ c.toNat ≠ 0x2029) : escapeHTMLChar c = [c] := by
  simp [escapeHTMLChar, notHTML, notSeparator]

theorem isHexDigit_toNat {c : Char} (hex : isHexDigit c = true) :
    (48 ≤ c.toNat ∧ c.toNat ≤ 57) ∨ (97 ≤ c.toNat ∧ c.toNat ≤ 102) ∨
      (65 ≤ c.toNat ∧ c.toNat ≤ 70) := by
  simp only [isHexDigit, isDigit, Bool.or_eq_true, Bool.and_eq_true, decide_eq_true_eq,
    char_le_iff_toNat] at hex
  simp at hex
  omega

theorem escapeHTMLChar_of_hexDigit {c : Char} (hex : isHexDigit c = true) :
    escapeHTMLChar c = [c] := by
  apply escapeHTMLChar_of_plain
  · refine ⟨?_, ?_, ?_⟩ <;> rintro rfl <;> exact absurd hex (by decide)
  · have := isHexDigit_toNat hex
    omega

theorem escapeHTMLChar_escapeHTMLChar (c : Char) :
    (escapeHTMLChar c).flatMap escapeHTMLChar = escapeHTMLChar c := by
  unfold escapeHTMLChar
  split
  · next html =>
      rcases html with rfl | rfl | rfl <;> decide
  · split
    · decide
    · split
      · decide
      · next notHTML notLine notParagraph =>
          simp [escapeHTMLChar, notHTML, notLine, notParagraph]

@[simp]
theorem escapeHTMLBody_cons (c : Char) (body : List Char) :
    escapeHTMLBody (c :: body) = escapeHTMLChar c ++ escapeHTMLBody body := by
  simp [escapeHTMLBody]

/-- A character after a backslash in a valid body is one HTML escaping keeps. -/
theorem escapeHTMLChar_of_simpleEscape {c : Char} (simple : isSimpleEscape c = true) :
    escapeHTMLChar c = [c] := by
  simp only [isSimpleEscape, Bool.or_eq_true, beq_iff_eq] at simple
  rcases simple with ((((((rfl | rfl) | rfl) | rfl) | rfl) | rfl) | rfl) | rfl <;> decide

mutual

/-- HTML escaping keeps a body the scanner accepts acceptable. -/
theorem validBody_escapeHTMLBody : (body : List Char) → validBody body = true →
    validBody (escapeHTMLBody body) = true
  | [], _ => rfl
  | c :: body, valid => by
      rw [escapeHTMLBody_cons]
      by_cases backslash : c = '\\'
      · subst backslash
        rw [validBody, if_pos rfl] at valid
        rw [show escapeHTMLChar '\\' = ['\\'] by decide, List.singleton_append, validBody, if_pos rfl]
        exact validEscape_escapeHTMLBody body valid
      · rw [validBody, if_neg backslash] at valid
        simp only [Bool.and_eq_true, bne_iff_ne, ne_eq, decide_eq_true_eq] at valid
        obtain ⟨⟨notQuote, printable⟩, validRest⟩ := valid
        have escaped := validBody_escapeHTMLBody body validRest
        by_cases html : c = '<' ∨ c = '>' ∨ c = '&'
        · rcases html with rfl | rfl | rfl <;> exact escaped
        · by_cases separator : c.toNat = 0x2028 ∨ c.toNat = 0x2029
          · have notHTML : ¬(c = '<' ∨ c = '>' ∨ c = '&') := html
            rcases separator with line | paragraph
            · simp only [escapeHTMLChar, if_neg notHTML, if_pos line]
              exact escaped
            · have notLine : c.toNat ≠ 0x2028 := by omega
              simp only [escapeHTMLChar, if_neg notHTML, if_neg notLine, if_pos paragraph]
              exact escaped
          · simp only [not_or] at html separator
            rw [escapeHTMLChar_of_plain html separator, List.singleton_append, validBody,
              if_neg backslash, escaped]
            simp [notQuote]
            omega

theorem validEscape_escapeHTMLBody : (body : List Char) → validEscape body = true →
    validEscape (escapeHTMLBody body) = true
  | [], valid => by cases valid
  | e :: body, valid => by
      rw [escapeHTMLBody_cons]
      by_cases u : e = 'u'
      · subst u
        rw [validEscape, if_pos rfl] at valid
        rw [show escapeHTMLChar 'u' = ['u'] by decide, List.singleton_append, validEscape, if_pos rfl]
        exact validUnit_escapeHTMLBody body valid
      · rw [validEscape, if_neg u, Bool.and_eq_true] at valid
        rw [escapeHTMLChar_of_simpleEscape valid.1, List.singleton_append, validEscape, if_neg u,
          valid.1, validBody_escapeHTMLBody body valid.2]
        rfl

theorem validUnit_escapeHTMLBody : (body : List Char) → validUnit body = true →
    validUnit (escapeHTMLBody body) = true
  | a :: b :: c :: d :: body, valid => by
      rw [validUnit] at valid
      simp only [Bool.and_eq_true] at valid
      obtain ⟨⟨⟨⟨ha, hb⟩, hc⟩, hd⟩, rest⟩ := valid
      simp only [escapeHTMLBody_cons, escapeHTMLChar_of_hexDigit ha, escapeHTMLChar_of_hexDigit hb,
        escapeHTMLChar_of_hexDigit hc, escapeHTMLChar_of_hexDigit hd, List.singleton_append]
      rw [validUnit, ha, hb, hc, hd, validBody_escapeHTMLBody body rest]
      rfl
  | [], valid | [_], valid | [_, _], valid | [_, _, _], valid => by cases valid

end

/-- HTML escaping twice is escaping once: what it writes holds no character it escapes. -/
theorem escapeHTMLBody_escapeHTMLBody (body : List Char) :
    escapeHTMLBody (escapeHTMLBody body) = escapeHTMLBody body := by
  simp only [escapeHTMLBody, List.flatMap_assoc, escapeHTMLChar_escapeHTMLChar]

mutual

theorem Json.valid_escapeHTML : (v : Json) → v.Valid → v.escapeHTML.Valid
  | .null, _ | .bool _, _ => trivial
  | .number _, valid => valid
  | .string body, valid => validBody_escapeHTMLBody body valid
  | .array items, valid => itemsValid_escapeHTMLItems items valid
  | .object members, valid => membersValid_escapeHTMLMembers members valid

theorem itemsValid_escapeHTMLItems :
    (items : List Json) → ItemsValid items → ItemsValid (escapeHTMLItems items)
  | [], _ => trivial
  | item :: rest, valid =>
      ⟨item.valid_escapeHTML valid.1, itemsValid_escapeHTMLItems rest valid.2⟩

theorem membersValid_escapeHTMLMembers : (members : List (List Char × Json × List Char)) →
    MembersValid members → MembersValid (escapeHTMLMembers members)
  | [], _ => trivial
  | (_, value, _) :: rest, valid =>
      ⟨validBody_escapeHTMLBody _ valid.1, value.valid_escapeHTML valid.2.1,
        membersValid_escapeHTMLMembers rest valid.2.2⟩

end

mutual

/-- Escaping sets each member's raw text to its value's text. -/
theorem Json.compact_escapeHTML : (v : Json) → v.escapeHTML.Compact
  | .null | .bool _ | .number _ | .string _ => trivial
  | .array items => itemsCompact_escapeHTMLItems items
  | .object members => membersCompact_escapeHTMLMembers members

theorem itemsCompact_escapeHTMLItems : (items : List Json) → ItemsCompact (escapeHTMLItems items)
  | [] => trivial
  | item :: rest => ⟨item.compact_escapeHTML, itemsCompact_escapeHTMLItems rest⟩

theorem membersCompact_escapeHTMLMembers : (members : List (List Char × Json × List Char)) →
    MembersCompact (escapeHTMLMembers members)
  | [] => trivial
  | (_, value, _) :: rest =>
      ⟨rfl, value.compact_escapeHTML, membersCompact_escapeHTMLMembers rest⟩

end

mutual

theorem Json.escapeHTML_escapeHTML : (v : Json) → v.escapeHTML.escapeHTML = v.escapeHTML
  | .null | .bool _ | .number _ => rfl
  | .string body => congrArg Json.string (escapeHTMLBody_escapeHTMLBody body)
  | .array items => congrArg Json.array (escapeHTMLItems_escapeHTMLItems items)
  | .object members => congrArg Json.object (escapeHTMLMembers_escapeHTMLMembers members)

theorem escapeHTMLItems_escapeHTMLItems :
    (items : List Json) → escapeHTMLItems (escapeHTMLItems items) = escapeHTMLItems items
  | [] => rfl
  | item :: rest => by
      simp only [escapeHTMLItems, item.escapeHTML_escapeHTML, escapeHTMLItems_escapeHTMLItems rest]

theorem escapeHTMLMembers_escapeHTMLMembers : (members : List (List Char × Json × List Char)) →
    escapeHTMLMembers (escapeHTMLMembers members) = escapeHTMLMembers members
  | [] => rfl
  | (key, value, _) :: rest => by
      simp only [escapeHTMLMembers, escapeHTMLBody_escapeHTMLBody, value.escapeHTML_escapeHTML,
        escapeHTMLMembers_escapeHTMLMembers rest]

end

mutual

/-- HTML escaping opens no array or object. -/
theorem Json.depth_escapeHTML : (v : Json) → v.escapeHTML.depth = v.depth
  | .null | .bool _ | .number _ | .string _ => rfl
  | .array items => congrArg (· + 1) (itemsDepth_escapeHTMLItems items)
  | .object members => congrArg (· + 1) (membersDepth_escapeHTMLMembers members)

theorem itemsDepth_escapeHTMLItems :
    (items : List Json) → itemsDepth (escapeHTMLItems items) = itemsDepth items
  | [] => rfl
  | item :: rest => by
      simp only [escapeHTMLItems, itemsDepth, item.depth_escapeHTML, itemsDepth_escapeHTMLItems rest]

theorem membersDepth_escapeHTMLMembers : (members : List (List Char × Json × List Char)) →
    membersDepth (escapeHTMLMembers members) = membersDepth members
  | [] => rfl
  | (_, value, _) :: rest => by
      simp only [escapeHTMLMembers, membersDepth, value.depth_escapeHTML,
        membersDepth_escapeHTMLMembers rest]

end

/-! ## Quoting strings -/

theorem hexDigit_spec : ∀ n, n < 16 → isHexDigit (hexDigit n) = true ∧ hexValue (hexDigit n) = n := by
  decide

theorem unescape_unicode (a b c d : Char) (rest : List Char)
    (notHigh : ¬(0xD800 ≤ hex4 a b c d ∧ hex4 a b c d < 0xDC00)) :
    unescape ('\\' :: 'u' :: a :: b :: c :: d :: rest) = unescapeUnit (hex4 a b c d) :: unescape rest := by
  rw [unescape, unescapeFrom.eq_3, if_neg notHigh]
  rfl

theorem unescape_simple {c : Char} (notU : c ≠ 'u') (rest : List Char) :
    unescape ('\\' :: c :: rest) = unescapeSimple c :: unescape rest :=
  unescapeFrom.eq_5 none c rest fun _ _ _ _ _ u _ => notU u

theorem unescape_plain {c : Char} (notBackslash : c ≠ '\\') (rest : List Char) :
    unescape (c :: rest) = c :: unescape rest :=
  unescapeFrom.eq_6 none c rest (fun _ _ _ _ _ b _ => notBackslash b) (fun _ _ b _ => notBackslash b)

/-- The \u escape the encoder writes for a character below U+0100 reads back as that character. -/
theorem unescape_escapeByte {c : Char} (small : c.toNat < 0x100) (rest : List Char) :
    unescape (escapeByte c ++ rest) = c :: unescape rest ∧
      validBody (escapeByte c ++ rest) = validBody rest := by
  obtain ⟨highHex, highValue⟩ := hexDigit_spec (c.toNat / 16) (by omega)
  obtain ⟨lowHex, lowValue⟩ := hexDigit_spec (c.toNat % 16) (by omega)
  have zero : hexValue '0' = 0 := rfl
  have unit : hex4 '0' '0' (hexDigit (c.toNat / 16)) (hexDigit (c.toNat % 16)) = c.toNat := by
    simp only [hex4, highValue, lowValue, zero]
    omega
  constructor
  · rw [escapeByte, List.cons_append, List.cons_append, List.cons_append, List.cons_append,
      List.cons_append, List.cons_append, List.nil_append, unescape_unicode _ _ _ _ _ (by omega),
      unit, unescapeUnit, if_neg (by omega), Char.ofNat_toNat]
  · have zeroHex : isHexDigit '0' = true := rfl
    simp [escapeByte, validBody, validEscape, validUnit, highHex, lowHex, zeroHex]

/-- A \u escape of a code unit outside the surrogates reads back as that character. -/
theorem unescape_unicode_char {c a b e d : Char} (code : c.toNat = hex4 a b e d)
    (below : hex4 a b e d < 0xD800) (rest : List Char) :
    unescape ('\\' :: 'u' :: a :: b :: e :: d :: rest) = c :: unescape rest := by
  rw [unescape_unicode _ _ _ _ _ (by omega), unescapeUnit, if_neg (by omega), ← code,
    Char.ofNat_toNat]

/-- What the encoder writes for one character is an acceptable escaped text that reads back as
that character. -/
theorem escapeChar_spec (c : Char) (rest : List Char) :
    unescape (escapeChar c ++ rest) = c :: unescape rest ∧
      validBody (escapeChar c ++ rest) = validBody rest := by
  by_cases quote : c = '"'
  · subst quote
    exact ⟨unescape_simple (by decide) rest, rfl⟩
  by_cases backslash : c = '\\'
  · subst backslash
    exact ⟨unescape_simple (by decide) rest, rfl⟩
  by_cases newline : c = '\n'
  · subst newline
    exact ⟨unescape_simple (by decide) rest, rfl⟩
  by_cases carriage : c = '\r'
  · subst carriage
    exact ⟨unescape_simple (by decide) rest, rfl⟩
  by_cases tab : c = '\t'
  · subst tab
    exact ⟨unescape_simple (by decide) rest, rfl⟩
  rw [escapeChar, if_neg quote, if_neg backslash, if_neg newline, if_neg carriage, if_neg tab]
  by_cases byte : c.toNat < 0x20 ∨ c = '<' ∨ c = '>' ∨ c = '&'
  · rw [if_pos byte]
    apply unescape_escapeByte
    rcases byte with control | rfl | rfl | rfl
    · omega
    all_goals decide
  rw [if_neg byte]
  by_cases line : c.toNat = 0x2028
  · rw [if_pos line]
    exact ⟨unescape_unicode_char (by rw [line]; rfl) (by decide) rest, rfl⟩
  rw [if_neg line]
  by_cases paragraph : c.toNat = 0x2029
  · rw [if_pos paragraph]
    exact ⟨unescape_unicode_char (by rw [paragraph]; rfl) (by decide) rest, rfl⟩
  rw [if_neg paragraph]
  refine ⟨unescape_plain backslash rest, ?_⟩
  rw [List.singleton_append, validBody, if_neg backslash]
  simp only [not_or] at byte
  simp [quote, backslash]
  omega

/-- The encoder's quoting of a string is text the scanner accepts, and the decoder reads it back as
that string. -/
theorem quoteBody_spec (s : List Char) :
    unescape (quoteBody s) = s ∧ validBody (quoteBody s) = true := by
  induction s with
  | nil => simp [quoteBody, unescape, unescapeFrom, validBody]
  | cons c rest inductionHypothesis =>
      have cons : quoteBody (c :: rest) = escapeChar c ++ quoteBody rest := by simp [quoteBody]
      obtain ⟨unescaped, valid⟩ := escapeChar_spec c (quoteBody rest)
      rw [cons, unescaped, valid, inductionHypothesis.1, inductionHypothesis.2]
      exact ⟨rfl, rfl⟩

end FireflyCommon.FFTypes
