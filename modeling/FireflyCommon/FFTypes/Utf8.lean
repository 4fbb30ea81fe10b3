import FireflyCommon.FFTypes.RoundTrip

set_option autoImplicit false

/-!
# Go strings as bytes

A Go string is a sequence of bytes and need not be UTF-8. encoding/json's appendString reads it
rune by rune with `utf8.DecodeRuneInString` and writes a byte that starts no valid encoding as the
escape of U+FFFD; the decoder's unquote writes the runes it reads back with `utf8.EncodeRune`. The
codec here follows unicode/utf8: the `first` table and `acceptRanges` of DecodeRune, and the
widths of EncodeRune. Decoding what was encoded gives the runes back, and encoding what was decoded
gives back every string that is valid UTF-8, so a string comes through the JSON round trip
unchanged exactly when it is valid UTF-8, and otherwise with U+FFFD for each invalid byte.
-/

namespace FireflyCommon.FFTypes

/-! ## unicode/utf8 -/

/-- `utf8.RuneError`, U+FFFD. -/
def runeError : Char := Char.ofNat 0xFFFD

/-- DecodeRune's `first` table with its `acceptRanges`, for a byte that starts an encoding of two
to four bytes: the size of the encoding, and the range the byte after the first must lie in (the
others lie in `locb` to `hicb`). `none` for the bytes the table marks `xx`. -/
def leadByte (b : Nat) : Option (Nat × Nat × Nat) :=
  if 0xC2 ≤ b ∧ b ≤ 0xDF then some (2, 0x80, 0xBF)
  else if b = 0xE0 then some (3, 0xA0, 0xBF)
  else if b = 0xED then some (3, 0x80, 0x9F)
  else if 0xE1 ≤ b ∧ b ≤ 0xEF then some (3, 0x80, 0xBF)
  else if b = 0xF0 then some (4, 0x90, 0xBF)
  else if b = 0xF4 then some (4, 0x80, 0x8F)
  else if 0xF1 ≤ b ∧ b ≤ 0xF3 then some (4, 0x80, 0xBF)
  else none

/-- `utf8.DecodeRune` on `p0 :: rest`: the rune and its size, with the masks of DecodeRune written
as remainders and its shifts as products. `none` is Go's `(RuneError, 1)`, the result for a byte
that starts no valid encoding. -/
def decodeRune (p0 : UInt8) (rest : List UInt8) : Option (Char × Nat) :=
  if p0.toNat < 0x80 then some (Char.ofNat p0.toNat, 1) else
  match leadByte p0.toNat, rest with
  | some (2, lo, hi), b1 :: _ =>
    if lo ≤ b1.toNat ∧ b1.toNat ≤ hi then
      some (Char.ofNat (p0.toNat % 0x20 * 0x40 + b1.toNat % 0x40), 2)
    else none
  | some (3, lo, hi), b1 :: b2 :: _ =>
    if lo ≤ b1.toNat ∧ b1.toNat ≤ hi ∧ 0x80 ≤ b2.toNat ∧ b2.toNat ≤ 0xBF then
      some (Char.ofNat (p0.toNat % 0x10 * 0x1000 + b1.toNat % 0x40 * 0x40 + b2.toNat % 0x40), 3)
    else none
  | some (4, lo, hi), b1 :: b2 :: b3 :: _ =>
    if lo ≤ b1.toNat ∧ b1.toNat ≤ hi ∧ 0x80 ≤ b2.toNat ∧ b2.toNat ≤ 0xBF ∧
        0x80 ≤ b3.toNat ∧ b3.toNat ≤ 0xBF then
      some (Char.ofNat (p0.toNat % 0x08 * 0x40000 + b1.toNat % 0x40 * 0x1000 +
        b2.toNat % 0x40 * 0x40 + b3.toNat % 0x40), 4)
    else none
  | _, _ => none

/-- The loop `r, size := utf8.DecodeRune(s[i:]); i += size` over a string, with `skip` bytes of
the last rune still to pass: each rune, and `none` for each byte that starts no valid encoding. -/
def runesAfter : Nat → List UInt8 → List (Option Char)
  | _, [] => []
  | skip + 1, _ :: rest => runesAfter skip rest
  | 0, p0 :: rest =>
    match decodeRune p0 rest with
    | some (c, size) => some c :: runesAfter (size - 1) rest
    | none => none :: runesAfter 0 rest

/-- The runes of a Go string, as a `for range` loop or unquote reads them. -/
def runes (s : List UInt8) : List (Option Char) := runesAfter 0 s

/-- `utf8.EncodeRune` of a `Char`, which is never a surrogate nor above `MaxRune`: one byte below
0x80, and otherwise a lead byte (`t2`, `t3` or `t4` with the high bits) and continuation bytes
(`tx` with six bits each), the masks and shifts written as remainders and quotients. -/
def encodeRune (c : Char) : List UInt8 :=
  if c.toNat ≤ 0x7F then [c.toNat.toUInt8]
  else if c.toNat ≤ 0x7FF then [(0xC0 + c.toNat / 0x40).toUInt8, (0x80 + c.toNat % 0x40).toUInt8]
  else if c.toNat ≤ 0xFFFF then
    [(0xE0 + c.toNat / 0x1000).toUInt8, (0x80 + c.toNat / 0x40 % 0x40).toUInt8,
      (0x80 + c.toNat % 0x40).toUInt8]
  else
    [(0xF0 + c.toNat / 0x40000).toUInt8, (0x80 + c.toNat / 0x1000 % 0x40).toUInt8,
      (0x80 + c.toNat / 0x40 % 0x40).toUInt8, (0x80 + c.toNat % 0x40).toUInt8]

/-- The Go string unquote builds from the runes it reads. -/
def encodeUTF8 (cs : List Char) : List UInt8 := cs.flatMap encodeRune

/-- The runes of a Go string with each invalid byte read as `RuneError`. -/
def decodeUTF8 (s : List UInt8) : List Char := (runes s).map fun r => r.getD runeError

/-- `utf8.ValidString`: no byte of the string starts an invalid encoding. -/
def validUTF8 (s : List UInt8) : Bool := (runes s).all Option.isSome

example : runes [0xE2, 0x82, 0xAC, 0x41, 0xFF] = [some (Char.ofNat 0x20AC), some 'A', none] := by
  decide

example : runes [0xE2, 0x82, 0x41, 0xED, 0xA0, 0x80] = [none, none, some 'A', none, none, none] := by
  decide

/-! ## Arithmetic of bytes and runes -/

theorem toNat_toUInt8 {n : Nat} (small : n < 0x100) : n.toUInt8.toNat = n :=
  UInt8.toNat_ofNat_of_lt small

theorem toUInt8_eq {n : Nat} {b : UInt8} (same : n = b.toNat) : n.toUInt8 = b :=
  UInt8.toNat.inj ((toNat_toUInt8 (same ▸ UInt8.toNat_lt_size b)).trans same)

theorem toNat_ofNat_char {n : Nat} (valid : n < 0xD800 ∨ 0xDFFF < n ∧ n < 0x110000) :
    (Char.ofNat n).toNat = n := by
  unfold Char.ofNat
  rw [dif_pos valid]
  rfl

theorem toNat_char_valid (c : Char) : c.toNat < 0xD800 ∨ 0xDFFF < c.toNat ∧ c.toNat < 0x110000 :=
  c.valid

theorem leadByte_of_two {b : Nat} (lead : 0xC2 ≤ b ∧ b ≤ 0xDF) :
    leadByte b = some (2, 0x80, 0xBF) := by
  rw [leadByte, if_pos lead]

theorem leadByte_of_three {b : Nat} (lead : 0xE0 ≤ b ∧ b ≤ 0xEF) :
    leadByte b = some (3, if b = 0xE0 then 0xA0 else 0x80, if b = 0xED then 0x9F else 0xBF) := by
  by_cases e0 : b = 0xE0
  · subst e0; rfl
  by_cases ed : b = 0xED
  · subst ed; rfl
  rw [leadByte, if_neg (by omega), if_neg e0, if_neg ed, if_pos (by omega), if_neg e0, if_neg ed]

theorem leadByte_of_four {b : Nat} (lead : 0xF0 ≤ b ∧ b ≤ 0xF4) :
    leadByte b = some (4, if b = 0xF0 then 0x90 else 0x80, if b = 0xF4 then 0x8F else 0xBF) := by
  by_cases f0 : b = 0xF0
  · subst f0; rfl
  by_cases f4 : b = 0xF4
  · subst f4; rfl
  rw [leadByte, if_neg (by omega), if_neg (by omega), if_neg (by omega), if_neg (by omega), if_neg f0,
    if_neg f4, if_pos (by omega), if_neg f0, if_neg f4]

/-- What a lead byte's entry says of it and of a byte in the range it gives for the next one:
the lead byte's range, and the next byte's, continuation bytes narrowed after E0, ED, F0 and F4. -/
theorem leadByte_eq_some {b size lo hi b1 : Nat} (lead : leadByte b = some (size, lo, hi))
    (follow : lo ≤ b1 ∧ b1 ≤ hi) :
    0x80 ≤ b1 ∧ b1 ≤ 0xBF ∧
      (size = 2 ∧ 0xC2 ≤ b ∧ b ≤ 0xDF ∨
        size = 3 ∧ 0xE0 ≤ b ∧ b ≤ 0xEF ∧ (b = 0xE0 → 0xA0 ≤ b1) ∧ (b = 0xED → b1 ≤ 0x9F) ∨
        size = 4 ∧ 0xF0 ≤ b ∧ b ≤ 0xF4 ∧ (b = 0xF0 → 0x90 ≤ b1) ∧ (b = 0xF4 → b1 ≤ 0x8F)) := by
  unfold leadByte at lead
  repeat' split at lead
  all_goals first | (cases lead; omega) | cases lead

/-! ## Encoding by width -/

theorem encodeRune_one {c : Char} (one : c.toNat ≤ 0x7F) : encodeRune c = [c.toNat.toUInt8] := by
  rw [encodeRune, if_pos one]

theorem encodeRune_two {c : Char} (two : 0x7F < c.toNat ∧ c.toNat ≤ 0x7FF) :
    encodeRune c = [(0xC0 + c.toNat / 0x40).toUInt8, (0x80 + c.toNat % 0x40).toUInt8] := by
  rw [encodeRune, if_neg (by omega), if_pos two.2]

theorem encodeRune_three {c : Char} (three : 0x7FF < c.toNat ∧ c.toNat ≤ 0xFFFF) :
    encodeRune c = [(0xE0 + c.toNat / 0x1000).toUInt8, (0x80 + c.toNat / 0x40 % 0x40).toUInt8,
      (0x80 + c.toNat % 0x40).toUInt8] := by
  rw [encodeRune, if_neg (by omega), if_neg (by omega), if_pos three.2]

theorem encodeRune_four {c : Char} (four : 0xFFFF < c.toNat) :
    encodeRune c = [(0xF0 + c.toNat / 0x40000).toUInt8, (0x80 + c.toNat / 0x1000 % 0x40).toUInt8,
      (0x80 + c.toNat / 0x40 % 0x40).toUInt8, (0x80 + c.toNat % 0x40).toUInt8] := by
  rw [encodeRune, if_neg (by omega), if_neg (by omega), if_neg (by omega)]

/-! ## Decoding by width -/

theorem decodeRune_one {p0 : UInt8} (rest : List UInt8) (one : p0.toNat < 0x80) :
    decodeRune p0 rest = some (Char.ofNat p0.toNat, 1) := by
  unfold decodeRune
  rw [if_pos one]

theorem decodeRune_two {p0 b1 : UInt8} (rest : List UInt8) (lead : 0xC2 ≤ p0.toNat ∧ p0.toNat ≤ 0xDF)
    (follow : 0x80 ≤ b1.toNat ∧ b1.toNat ≤ 0xBF) :
    decodeRune p0 (b1 :: rest) =
      some (Char.ofNat (p0.toNat % 0x20 * 0x40 + b1.toNat % 0x40), 2) := by
  unfold decodeRune
  rw [if_neg (by omega), leadByte_of_two lead]
  exact if_pos follow

theorem decodeRune_three {p0 b1 b2 : UInt8} (rest : List UInt8)
    (lead : 0xE0 ≤ p0.toNat ∧ p0.toNat ≤ 0xEF)
    (follow : (p0.toNat = 0xE0 → 0xA0 ≤ b1.toNat) ∧ (p0.toNat = 0xED → b1.toNat ≤ 0x9F) ∧
      0x80 ≤ b1.toNat ∧ b1.toNat ≤ 0xBF ∧ 0x80 ≤ b2.toNat ∧ b2.toNat ≤ 0xBF) :
    decodeRune p0 (b1 :: b2 :: rest) =
      some (Char.ofNat (p0.toNat % 0x10 * 0x1000 + b1.toNat % 0x40 * 0x40 + b2.toNat % 0x40), 3) := by
  unfold decodeRune
  rw [if_neg (by omega), leadByte_of_three lead]
  exact if_pos (by split_ifs <;> omega)

theorem decodeRune_four {p0 b1 b2 b3 : UInt8} (rest : List UInt8)
    (lead : 0xF0 ≤ p0.toNat ∧ p0.toNat ≤ 0xF4)
    (follow : (p0.toNat = 0xF0 → 0x90 ≤ b1.toNat) ∧ (p0.toNat = 0xF4 → b1.toNat ≤ 0x8F) ∧
      0x80 ≤ b1.toNat ∧ b1.toNat ≤ 0xBF ∧ 0x80 ≤ b2.toNat ∧ b2.toNat ≤ 0xBF ∧
      0x80 ≤ b3.toNat ∧ b3.toNat ≤ 0xBF) :
    decodeRune p0 (b1 :: b2 :: b3 :: rest) =
      some (Char.ofNat (p0.toNat % 0x08 * 0x40000 + b1.toNat % 0x40 * 0x1000 +
        b2.toNat % 0x40 * 0x40 + b3.toNat % 0x40), 4) := by
  unfold decodeRune
  rw [if_neg (by omega), leadByte_of_four lead]
  exact if_pos (by split_ifs <;> omega)

/-! ## The codec -/

/-- DecodeRune reads back the rune EncodeRune wrote, and exactly its bytes. -/
theorem decodeRune_encodeRune (c : Char) (rest : List UInt8) :
    ∃ p0 tail, encodeRune c = p0 :: tail ∧
      decodeRune p0 (tail ++ rest) = some (c, tail.length + 1) := by
  have valid := toNat_char_valid c
  have read {n : Nat} (same : n = c.toNat) : Char.ofNat n = c := same ▸ Char.ofNat_toNat c
  by_cases one : c.toNat ≤ 0x7F
  · have b0 := toNat_toUInt8 (n := c.toNat) (by omega)
    refine ⟨_, [], encodeRune_one one, ?_⟩
    rw [List.nil_append, decodeRune_one rest (by omega), b0, Char.ofNat_toNat]
    rfl
  by_cases two : c.toNat ≤ 0x7FF
  · have b0 := toNat_toUInt8 (n := 0xC0 + c.toNat / 0x40) (by omega)
    have b1 := toNat_toUInt8 (n := 0x80 + c.toNat % 0x40) (by omega)
    refine ⟨_, _, encodeRune_two ⟨by omega, two⟩, ?_⟩
    rw [List.singleton_append, decodeRune_two rest (by omega) (by omega), b0, b1, read (by omega)]
    rfl
  by_cases three : c.toNat ≤ 0xFFFF
  · have b0 := toNat_toUInt8 (n := 0xE0 + c.toNat / 0x1000) (by omega)
    have b1 := toNat_toUInt8 (n := 0x80 + c.toNat / 0x40 % 0x40) (by omega)
    have b2 := toNat_toUInt8 (n := 0x80 + c.toNat % 0x40) (by omega)
    refine ⟨_, _, encodeRune_three ⟨by omega, three⟩, ?_⟩
    rw [List.cons_append, List.singleton_append, decodeRune_three rest (by omega) (by omega), b0, b1,
      b2, read (by omega)]
    rfl
  · have b0 := toNat_toUInt8 (n := 0xF0 + c.toNat / 0x40000) (by omega)
    have b1 := toNat_toUInt8 (n := 0x80 + c.toNat / 0x1000 % 0x40) (by omega)
    have b2 := toNat_toUInt8 (n := 0x80 + c.toNat / 0x40 % 0x40) (by omega)
    have b3 := toNat_toUInt8 (n := 0x80 + c.toNat % 0x40) (by omega)
    refine ⟨_, _, encodeRune_four (by omega), ?_⟩
    rw [List.cons_append, List.cons_append, List.singleton_append,
      decodeRune_four rest (by omega) (by omega), b0, b1, b2, b3, read (by omega)]
    rfl

/-- EncodeRune writes back the bytes DecodeRune read a rune from. -/
theorem encodeRune_of_decodeRune {p0 : UInt8} {rest : List UInt8} {c : Char} {size : Nat}
    (decoded : decodeRune p0 rest = some (c, size)) : encodeRune c = p0 :: rest.take (size - 1) := by
  unfold decodeRune at decoded
  split at decoded
  · next one =>
      cases decoded
      rw [encodeRune_one (by rw [toNat_ofNat_char (by omega)]; omega), toNat_ofNat_char (by omega),
        toUInt8_eq rfl]
      rfl
  split at decoded
  · next lo hi b1 tail lead =>
      split at decoded
      · next follow =>
          cases decoded
          obtain ⟨f0, f1, ⟨-, l0, l1⟩ | ⟨no, -⟩ | ⟨no, -⟩⟩ := leadByte_eq_some lead follow <;>
            try cases no
          have code := toNat_ofNat_char (n := p0.toNat % 0x20 * 0x40 + b1.toNat % 0x40) (by omega)
          rw [encodeRune_two (by omega), code, toUInt8_eq (b := p0) (by omega),
            toUInt8_eq (b := b1) (by omega)]
          rfl
      · cases decoded
  · next lo hi b1 b2 tail lead =>
      split at decoded
      · next follow =>
          cases decoded
          obtain ⟨f0, f1, ⟨no, -⟩ | ⟨-, l0, l1, e0, ed⟩ | ⟨no, -⟩⟩ :=
            leadByte_eq_some lead ⟨follow.1, follow.2.1⟩ <;> try cases no
          have code := toNat_ofNat_char
            (n := p0.toNat % 0x10 * 0x1000 + b1.toNat % 0x40 * 0x40 + b2.toNat % 0x40) (by omega)
          rw [encodeRune_three (by omega), code, toUInt8_eq (b := p0) (by omega),
            toUInt8_eq (b := b1) (by omega), toUInt8_eq (b := b2) (by omega)]
          rfl
      · cases decoded
  · next lo hi b1 b2 b3 tail lead =>
      split at decoded
      · next follow =>
          cases decoded
          obtain ⟨f0, f1, ⟨no, -⟩ | ⟨no, -⟩ | ⟨-, l0, l1, e0, e4⟩⟩ :=
            leadByte_eq_some lead ⟨follow.1, follow.2.1⟩ <;> try cases no
          have code := toNat_ofNat_char (n := p0.toNat % 0x08 * 0x40000 + b1.toNat % 0x40 * 0x1000 +
            b2.toNat % 0x40 * 0x40 + b3.toNat % 0x40) (by omega)
          rw [encodeRune_four (by omega), code, toUInt8_eq (b := p0) (by omega),
            toUInt8_eq (b := b1) (by omega), toUInt8_eq (b := b2) (by omega),
            toUInt8_eq (b := b3) (by omega)]
          rfl
      · cases decoded
  · cases decoded

theorem runesAfter_eq_runes_drop : (skip : Nat) → (s : List UInt8) →
    runesAfter skip s = runes (s.drop skip)
  | 0, _ => rfl
  | _ + 1, [] => rfl
  | skip + 1, _ :: rest => runesAfter_eq_runes_drop skip rest

/-- The decoding loop after a valid rune goes on after its bytes. -/
theorem runes_of_decodeRune {p0 : UInt8} {rest : List UInt8} {c : Char} {size : Nat}
    (decoded : decodeRune p0 rest = some (c, size)) :
    runes (p0 :: rest) = some c :: runes (rest.drop (size - 1)) := by
  rw [runes, runesAfter, decoded]
  exact congrArg _ (runesAfter_eq_runes_drop _ _)

/-- The decoding loop after an invalid byte goes on at the next byte. -/
theorem runes_of_decodeRune_none {p0 : UInt8} {rest : List UInt8}
    (invalid : decodeRune p0 rest = none) : runes (p0 :: rest) = none :: runes rest := by
  rw [runes, runesAfter, invalid]
  rfl

theorem runes_encodeRune (c : Char) (rest : List UInt8) :
    runes (encodeRune c ++ rest) = some c :: runes rest := by
  obtain ⟨p0, tail, encoded, decoded⟩ := decodeRune_encodeRune c rest
  rw [encoded, List.cons_append, runes_of_decodeRune decoded, Nat.add_sub_cancel, List.drop_left]

@[simp]
theorem encodeUTF8_cons (c : Char) (cs : List Char) :
    encodeUTF8 (c :: cs) = encodeRune c ++ encodeUTF8 cs :=
  List.flatMap_cons c cs encodeRune

/-- Decoding what the encoder wrote gives back its runes, none of them invalid. -/
@[simp]
theorem runes_encodeUTF8 (cs : List Char) : runes (encodeUTF8 cs) = cs.map some := by
  induction cs with
  | nil => rfl
  | cons c cs inductionHypothesis => rw [encodeUTF8_cons, runes_encodeRune, inductionHypothesis]; rfl

theorem decodeUTF8_encodeUTF8 (cs : List Char) : decodeUTF8 (encodeUTF8 cs) = cs := by
  simp [decodeUTF8, Function.comp_def]

theorem validUTF8_encodeUTF8 (cs : List Char) : validUTF8 (encodeUTF8 cs) = true := by
  simp [validUTF8]

/-- Encoding the runes of a valid UTF-8 string gives the string back. -/
theorem encodeUTF8_decodeUTF8 : (s : List UInt8) → validUTF8 s = true → encodeUTF8 (decodeUTF8 s) = s
  | [], _ => rfl
  | p0 :: rest, valid => by
      cases decoded : decodeRune p0 rest with
      | none => simp [validUTF8, runes_of_decodeRune_none decoded] at valid
      | some read =>
          obtain ⟨c, size⟩ := read
          have restValid : validUTF8 (rest.drop (size - 1)) = true := by
            simpa [validUTF8, runes_of_decodeRune decoded] using valid
          have _ : (rest.drop (size - 1)).length < (p0 :: rest).length := by
            simp only [List.length_drop, List.length_cons]
            omega
          simp only [decodeUTF8, runes_of_decodeRune decoded, List.map_cons, Option.getD_some]
          rw [encodeUTF8_cons, ← decodeUTF8, encodeUTF8_decodeUTF8 _ restValid,
            encodeRune_of_decodeRune decoded, List.cons_append, List.take_append_drop]
termination_by s => s.length

/-! ## Quoting a Go string -/

/-- What appendString writes for one rune of a string: the character as `escapeChar` writes it,
and for a byte that starts no valid encoding the escape of U+FFFD. -/
def quoteRune : Option Char → List Char
  | some c => escapeChar c
  | none => ['\\', 'u', 'f', 'f', 'f', 'd']

/-- encoding/json's appendString on a Go string, between its quotes. -/
def quoteBytes (s : List UInt8) : List Char := (runes s).flatMap quoteRune

theorem quoteRune_spec (r : Option Char) (rest : List Char) :
    unescape (quoteRune r ++ rest) = r.getD runeError :: unescape rest ∧
      validBody (quoteRune r ++ rest) = validBody rest := by
  cases r with
  | some c => exact escapeChar_spec c rest
  | none =>
      have code : hex4 'f' 'f' 'f' 'd' = 0xFFFD := by decide
      refine ⟨?_, rfl⟩
      show unescape ('\\' :: 'u' :: 'f' :: 'f' :: 'f' :: 'd' :: rest) = _
      rw [unescape_unicode _ _ _ _ _ (by rw [code]; omega), code, unescapeUnit, if_neg (by omega)]
      rfl

/-- The encoder's quoting of a Go string is text the scanner accepts, and the decoder reads it
back as the string's runes with `RuneError` for each invalid byte. -/
theorem quoteBytes_spec (s : List UInt8) :
    unescape (quoteBytes s) = decodeUTF8 s ∧ validBody (quoteBytes s) = true := by
  unfold quoteBytes decodeUTF8
  induction runes s with
  | nil => simp [unescape, unescapeFrom, validBody]
  | cons r rs inductionHypothesis =>
      obtain ⟨unescaped, valid⟩ := quoteRune_spec r (rs.flatMap quoteRune)
      rw [List.flatMap_cons, unescaped, valid, inductionHypothesis.1, inductionHypothesis.2]
      exact ⟨rfl, rfl⟩

end FireflyCommon.FFTypes
