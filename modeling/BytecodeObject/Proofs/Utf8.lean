import BytecodeObject.Utf8

/-!
# Well-formed UTF-8

Bytes are decoded exactly where they are the encoding of a text, and then as that text. Lossy decoding
agrees with decoding there. The encoding is the one in which strings are held.
-/

set_option autoImplicit false

namespace BytecodeObject.Utf8

/-!
## First bytes of characters
-/

private theorem start_one {lead : UInt8} (below : lead.toNat < 0x80) :
    start lead = ([some (Char.ofNat lead.toNat)], .between) := by
  rw [start, if_pos (UInt8.lt_iff_toNat_lt.mpr below)]

private theorem start_two {lead : UInt8} (low : 0xC2 ≤ lead.toNat) (high : lead.toNat < 0xE0) :
    start lead = ([], .owing 0 (lead.toNat % 32) 0x80 0xBF) := by
  simp only [start, UInt8.lt_iff_toNat_lt, UInt8.reduceToNat]
  rw [if_neg (by omega), if_neg (by omega), if_pos high]

private theorem start_three {lead : UInt8} (low : 0xE0 ≤ lead.toNat) (high : lead.toNat < 0xF0) :
    start lead = ([], .owing 1 (lead.toNat % 16) (if lead = 0xE0 then 0xA0 else 0x80)
      (if lead = 0xED then 0x9F else 0xBF)) := by
  simp only [start, UInt8.lt_iff_toNat_lt, UInt8.reduceToNat]
  rw [if_neg (by omega), if_neg (by omega), if_neg (by omega)]
  by_cases first : lead = 0xE0
  · simp [first]
  · by_cases surrogate : lead = 0xED
    · simp [surrogate]
    · simp [first, surrogate, high]

private theorem start_four {lead : UInt8} (low : 0xF0 ≤ lead.toNat) (high : lead.toNat < 0xF5) :
    start lead = ([], .owing 2 (lead.toNat % 8) (if lead = 0xF0 then 0x90 else 0x80)
      (if lead = 0xF4 then 0x8F else 0xBF)) := by
  have notThree : lead ≠ 0xE0 ∧ lead ≠ 0xED := by
    constructor <;> rintro rfl <;> simp at low
  simp only [start, UInt8.lt_iff_toNat_lt, UInt8.reduceToNat, notThree, if_false]
  rw [if_neg (by omega), if_neg (by omega), if_neg (by omega), if_neg (by omega)]
  by_cases first : lead = 0xF0
  · simp [first]
  · by_cases last : lead = 0xF4
    · simp [last]
    · have below : lead.toNat < 0xF4 := by
        have unequal := mt UInt8.toNat_inj.mp last
        simp only [UInt8.reduceToNat] at unequal
        omega
      simp [first, last, below]

private theorem start_none {lead : UInt8}
    (outside : 0x80 ≤ lead.toNat ∧ lead.toNat < 0xC2 ∨ 0xF5 ≤ lead.toNat) :
    start lead = ([none], .between) := by
  simp only [start, UInt8.lt_iff_toNat_lt, UInt8.reduceToNat, ← UInt8.toNat_inj]
  split
  · omega
  · split
    · rfl
    · iterate 7 rw [if_neg (by omega)]

/-!
## Scanning one character
-/

private theorem scan_cons (byte : UInt8) (rest : List UInt8) :
    scan (byte :: rest) = (start byte).1 ++ scanFrom (start byte).2 rest := rfl

private theorem scanFrom_owing_zero {value : Nat} {low high byte : UInt8}
    (inside : low ≤ byte ∧ byte ≤ high) (rest : List UInt8) :
    scanFrom (.owing 0 value low high) (byte :: rest) =
      some (Char.ofNat (value * 64 + byte.toNat % 64)) :: scan rest := by
  simp [scanFrom, step, inside, scan]

private theorem scanFrom_owing_succ {after value : Nat} {low high byte : UInt8}
    (inside : low ≤ byte ∧ byte ≤ high) (rest : List UInt8) :
    scanFrom (.owing (after + 1) value low high) (byte :: rest) =
      scanFrom (.owing after (value * 64 + byte.toNat % 64) 0x80 0xBF) rest := by
  simp [scanFrom, step, inside]

/-- A character that is begun ends in an empty entry unless a byte in its range follows. -/
private theorem exists_cons_of_scanFrom_owing {after value : Nat} {low high : UInt8} {bytes : List UInt8}
    (whole : none ∉ scanFrom (.owing after value low high) bytes) :
    ∃ byte rest, bytes = byte :: rest ∧ low ≤ byte ∧ byte ≤ high := by
  cases bytes with
  | nil => simp [scanFrom, finish] at whole
  | cons byte rest =>
      refine ⟨byte, rest, rfl, ?_⟩
      apply Classical.byContradiction
      intro outside
      simp [scanFrom, step, outside] at whole

/-- In three bytes, the range for the second one keeps out what two bytes can hold, and the
surrogates. -/
private theorem second_of_three_iff {lead middle : UInt8} (low : 0xE0 ≤ lead.toNat)
    (high : lead.toNat < 0xF0) :
    (if lead = 0xE0 then 0xA0 else 0x80) ≤ middle ∧ middle ≤ (if lead = 0xED then 0x9F else 0xBF) ↔
      (0x80 ≤ middle.toNat ∧ middle.toNat < 0xC0) ∧
        0x20 ≤ lead.toNat % 16 * 64 + middle.toNat % 64 ∧
        (lead.toNat % 16 * 64 + middle.toNat % 64 < 0x360 ∨
          0x380 ≤ lead.toNat % 16 * 64 + middle.toNat % 64) := by
  simp only [← UInt8.toNat_inj, UInt8.le_iff_toNat_le, apply_ite UInt8.toNat, UInt8.reduceToNat]
  split <;> split <;> omega

/-- In four bytes, the range for the second one keeps out what three bytes can hold, and what is above
the last code point. -/
private theorem second_of_four_iff {lead middle : UInt8} (low : 0xF0 ≤ lead.toNat)
    (high : lead.toNat < 0xF5) :
    (if lead = 0xF0 then 0x90 else 0x80) ≤ middle ∧ middle ≤ (if lead = 0xF4 then 0x8F else 0xBF) ↔
      (0x80 ≤ middle.toNat ∧ middle.toNat < 0xC0) ∧
        0x10 ≤ lead.toNat % 8 * 64 + middle.toNat % 64 ∧
        lead.toNat % 8 * 64 + middle.toNat % 64 < 0x110 := by
  simp only [← UInt8.toNat_inj, UInt8.le_iff_toNat_le, apply_ite UInt8.toNat, UInt8.reduceToNat]
  split <;> split <;> omega

private theorem trailing_iff {byte : UInt8} :
    0x80 ≤ byte ∧ byte ≤ 0xBF ↔ 0x80 ≤ byte.toNat ∧ byte.toNat < 0xC0 := by
  simp only [UInt8.le_iff_toNat_le, UInt8.reduceToNat]
  omega

private theorem toNat_ofNat_add (base number : Nat) (fits : base + number < 256) :
    (UInt8.ofNat (base + number)).toNat = base + number :=
  UInt8.toNat_ofNat_of_lt' fits

/-- A scan takes the encoding of a character for that character, whatever follows. -/
private theorem scan_encodeChar_append (character : Char) (rest : List UInt8) :
    scan (encodeChar character ++ rest) = some character :: scan rest := by
  have valid : character.toNat < 0xD800 ∨ 0xDFFF < character.toNat ∧ character.toNat < 0x110000 :=
    character.valid
  -- The scan puts a number together from bits, which `omega` then tells to be the code point.
  have whole : ∀ code, code = character.toNat → Char.ofNat code = character := by
    rintro code rfl
    exact Char.ofNat_toNat character
  unfold encodeChar
  dsimp only
  split
  · have lead := toNat_ofNat_add 0 character.toNat (by omega)
    rw [Nat.zero_add] at lead
    rw [List.singleton_append, scan_cons, start_one (by omega), lead, whole _ rfl]
    rfl
  · have last := toNat_ofNat_add 0x80 (character.toNat % 64) (by omega)
    have lastInside := (@trailing_iff (UInt8.ofNat (0x80 + character.toNat % 64))).mpr (by omega)
    split
    · have lead := toNat_ofNat_add 0xC0 (character.toNat / 64) (by omega)
      rw [List.cons_append, List.singleton_append, scan_cons, start_two (by omega) (by omega),
        List.nil_append, scanFrom_owing_zero lastInside, whole _ (by omega)]
    · have third := toNat_ofNat_add 0x80 (character.toNat / 64 % 64) (by omega)
      split
      · have lead := toNat_ofNat_add 0xE0 (character.toNat / 4096) (by omega)
        rw [List.cons_append, List.cons_append, List.singleton_append, scan_cons,
          start_three (by omega) (by omega), List.nil_append,
          scanFrom_owing_succ ((second_of_three_iff (by omega) (by omega)).mpr (by omega)),
          scanFrom_owing_zero lastInside, whole _ (by omega)]
      · have lead := toNat_ofNat_add 0xF0 (character.toNat / 262144) (by omega)
        have second := toNat_ofNat_add 0x80 (character.toNat / 4096 % 64) (by omega)
        rw [List.cons_append, List.cons_append, List.cons_append, List.singleton_append, scan_cons,
          start_four (by omega) (by omega), List.nil_append,
          scanFrom_owing_succ ((second_of_four_iff (by omega) (by omega)).mpr (by omega)),
          scanFrom_owing_succ (trailing_iff.mpr (by omega)), scanFrom_owing_zero lastInside,
          whole _ (by omega)]

/-!
## Characters of a scan
-/

private theorem toNat_ofNat {code : Nat} (valid : code < 0xD800 ∨ 0xDFFF < code ∧ code < 0x110000) :
    (Char.ofNat code).toNat = code := by
  have isValid : code.isValidChar := valid
  unfold Char.ofNat
  rw [dif_pos isValid]
  rfl

private theorem encodeChar_one {lead : UInt8} (below : lead.toNat < 0x80) :
    encodeChar (Char.ofNat lead.toNat) = [lead] := by
  rw [encodeChar, toNat_ofNat (by omega), if_pos below, UInt8.ofNat_toNat]

private theorem encodeChar_two {lead last : UInt8} (low : 0xC2 ≤ lead.toNat) (high : lead.toNat < 0xE0)
    (trailing : 0x80 ≤ last.toNat ∧ last.toNat < 0xC0) :
    encodeChar (Char.ofNat (lead.toNat % 32 * 64 + last.toNat % 64)) = [lead, last] := by
  rw [encodeChar, toNat_ofNat (by omega), if_neg (by omega), if_pos (by omega)]
  simp only [List.cons.injEq, and_true, ← UInt8.toNat_inj, UInt8.toNat_ofNat']
  omega

private theorem encodeChar_three {lead middle last : UInt8} (low : 0xE0 ≤ lead.toNat)
    (high : lead.toNat < 0xF0) (second : 0x80 ≤ middle.toNat ∧ middle.toNat < 0xC0)
    (long : 0x20 ≤ lead.toNat % 16 * 64 + middle.toNat % 64)
    (scalar : lead.toNat % 16 * 64 + middle.toNat % 64 < 0x360 ∨
      0x380 ≤ lead.toNat % 16 * 64 + middle.toNat % 64)
    (trailing : 0x80 ≤ last.toNat ∧ last.toNat < 0xC0) :
    encodeChar (Char.ofNat ((lead.toNat % 16 * 64 + middle.toNat % 64) * 64 + last.toNat % 64)) =
      [lead, middle, last] := by
  rw [encodeChar, toNat_ofNat (by omega), if_neg (by omega), if_neg (by omega), if_pos (by omega)]
  simp only [List.cons.injEq, and_true, ← UInt8.toNat_inj, UInt8.toNat_ofNat']
  omega

private theorem encodeChar_four {lead second third last : UInt8} (low : 0xF0 ≤ lead.toNat)
    (high : lead.toNat < 0xF5) (secondTrails : 0x80 ≤ second.toNat ∧ second.toNat < 0xC0)
    (long : 0x10 ≤ lead.toNat % 8 * 64 + second.toNat % 64)
    (coded : lead.toNat % 8 * 64 + second.toNat % 64 < 0x110)
    (thirdTrails : 0x80 ≤ third.toNat ∧ third.toNat < 0xC0)
    (lastTrails : 0x80 ≤ last.toNat ∧ last.toNat < 0xC0) :
    encodeChar (Char.ofNat (((lead.toNat % 8 * 64 + second.toNat % 64) * 64 +
      third.toNat % 64) * 64 + last.toNat % 64)) = [lead, second, third, last] := by
  rw [encodeChar, toNat_ofNat (by omega), if_neg (by omega), if_neg (by omega), if_neg (by omega)]
  simp only [List.cons.injEq, and_true, ← UInt8.toNat_inj, UInt8.toNat_ofNat']
  omega

/-- Where a scan has no empty entry, its bytes start with the encoding of a character. -/
private theorem exists_encodeChar_append {lead : UInt8} {rest : List UInt8}
    (whole : none ∉ scan (lead :: rest)) :
    ∃ character tail, lead :: rest = encodeChar character ++ tail := by
  rw [scan_cons] at whole
  -- One case for each number of bytes that a first byte asks for, and two for no number at all.
  by_cases one : lead.toNat < 0x80
  · exact ⟨_, rest, by rw [encodeChar_one one]; rfl⟩
  by_cases notLead : lead.toNat < 0xC2
  · simp [start_none (.inl ⟨by omega, notLead⟩)] at whole
  by_cases two : lead.toNat < 0xE0
  · rw [start_two (by omega) two] at whole
    obtain ⟨last, tail, rfl, inside⟩ := exists_cons_of_scanFrom_owing whole
    exact ⟨_, tail, by rw [encodeChar_two (by omega) two (trailing_iff.mp inside)]; rfl⟩
  by_cases three : lead.toNat < 0xF0
  · rw [start_three (by omega) three] at whole
    obtain ⟨middle, tail, rfl, inside⟩ := exists_cons_of_scanFrom_owing whole
    rw [List.nil_append, scanFrom_owing_succ inside] at whole
    obtain ⟨last, tail, rfl, lastInside⟩ := exists_cons_of_scanFrom_owing whole
    obtain ⟨trails, long, scalar⟩ := (second_of_three_iff (by omega) three).mp inside
    have same := encodeChar_three (by omega) three trails long scalar (trailing_iff.mp lastInside)
    exact ⟨_, tail, by rw [same]; rfl⟩
  by_cases four : lead.toNat < 0xF5
  · rw [start_four (by omega) four] at whole
    obtain ⟨second, tail, rfl, inside⟩ := exists_cons_of_scanFrom_owing whole
    rw [List.nil_append, scanFrom_owing_succ inside] at whole
    obtain ⟨third, tail, rfl, thirdInside⟩ := exists_cons_of_scanFrom_owing whole
    rw [scanFrom_owing_succ thirdInside] at whole
    obtain ⟨last, tail, rfl, lastInside⟩ := exists_cons_of_scanFrom_owing whole
    obtain ⟨trails, long, coded⟩ := (second_of_four_iff (by omega) four).mp inside
    have same := encodeChar_four (by omega) four trails long coded (trailing_iff.mp thirdInside)
      (trailing_iff.mp lastInside)
    exact ⟨_, tail, by rw [same]; rfl⟩
  · simp [start_none (.inr (Nat.le_of_not_lt four))] at whole

/-!
## Decoding what is encoded
-/

private theorem length_encodeChar_pos (character : Char) : 0 < (encodeChar character).length := by
  unfold encodeChar
  dsimp only
  split
  · exact Nat.one_pos
  · split
    · exact Nat.two_pos
    · split <;> exact Nat.succ_pos _

private theorem scan_flatMap_encodeChar (characters : List Char) :
    scan (characters.flatMap encodeChar) = characters.map some := by
  induction characters with
  | nil => rfl
  | cons character rest restIH =>
      rw [List.flatMap_cons, scan_encodeChar_append, restIH, List.map_cons]

private theorem exists_flatMap_encodeChar {bytes : List UInt8} (whole : none ∉ scan bytes) :
    ∃ characters : List Char, bytes = characters.flatMap encodeChar := by
  match bytes with
  | [] => exact ⟨[], rfl⟩
  | lead :: rest =>
      obtain ⟨character, tail, split⟩ := exists_encodeChar_append whole
      have shorter : tail.length < (lead :: rest).length := by
        have positive := length_encodeChar_pos character
        rw [split, List.length_append]
        omega
      rw [split, scan_encodeChar_append] at whole
      obtain ⟨characters, same⟩ := exists_flatMap_encodeChar (fun inside => whole (.tail _ inside))
      exact ⟨character :: characters, by rw [split, List.flatMap_cons, ← same]⟩
termination_by bytes.length
decreasing_by exact shorter

@[simp] theorem decode?_encode (text : String) : decode? (encode text) = some text := by
  have whole (characters : List Char) : (characters.map some).mapM id = some characters := by
    induction characters with
    | nil => rfl
    | cons character rest restIH => simp [restIH]
  rw [decode?, encode, scan_flatMap_encodeChar, whole, Option.map_some, String.ofList_toList]

@[simp] theorem lossy_encode (text : String) : lossy (encode text) = text := by
  simp [lossy, encode, scan_flatMap_encodeChar, Function.comp_def]

private theorem none_notMem_of_mapM_eq_some {entries : List (Option Char)} {characters : List Char}
    (all : entries.mapM id = some characters) : none ∉ entries := by
  induction entries generalizing characters with
  | nil => exact List.not_mem_nil
  | cons entry rest restIH =>
      cases entry with
      | none => simp at all
      | some character =>
          rw [List.mapM_cons] at all
          obtain ⟨first, _, all⟩ := Option.bind_eq_some_iff.mp all
          obtain ⟨later, laterAll, _⟩ := Option.bind_eq_some_iff.mp all
          simp [restIH laterAll]

/-- Bytes are decoded as a text exactly where they are its encoding. -/
theorem decode?_eq_some_iff {bytes : List UInt8} {text : String} :
    decode? bytes = some text ↔ bytes = encode text := by
  constructor
  · intro decoded
    obtain ⟨characters, all, _⟩ := Option.map_eq_some_iff.mp decoded
    obtain ⟨encoded, rfl⟩ := exists_flatMap_encodeChar (none_notMem_of_mapM_eq_some all)
    have same : encode (String.ofList encoded) = encoded.flatMap encodeChar := by
      rw [encode, String.toList_ofList]
    rw [← same, decode?_encode] at decoded
    rw [← same, Option.some.inj decoded]
  · rintro rfl
    exact decode?_encode text

/-!
## The encoding of strings
-/

private theorem encodeChar_eq_utf8EncodeChar (character : Char) :
    encodeChar character = String.utf8EncodeChar character := by
  have valid : character.toNat < 0xD800 ∨ 0xDFFF < character.toNat ∧ character.toNat < 0x110000 :=
    character.valid
  have code : character.val.toNat = character.toNat := rfl
  rw [encodeChar, String.utf8EncodeChar, code]
  by_cases one : character.toNat < 0x80
  · rw [if_pos one, if_pos (by omega)]
  by_cases two : character.toNat < 0x800
  · rw [if_neg one, if_pos two, if_neg (by omega), if_pos (by omega)]
    simp only [List.cons.injEq, and_true, ← UInt8.toNat_inj, UInt8.toNat_ofNat']
    omega
  by_cases three : character.toNat < 0x10000
  · rw [if_neg one, if_neg two, if_pos three, if_neg (by omega), if_neg (by omega), if_pos (by omega)]
    simp only [List.cons.injEq, and_true, ← UInt8.toNat_inj, UInt8.toNat_ofNat']
    omega
  · rw [if_neg one, if_neg two, if_neg three, if_neg (by omega), if_neg (by omega), if_neg (by omega)]
    simp only [List.cons.injEq, and_true, ← UInt8.toNat_inj, UInt8.toNat_ofNat']
    omega

private theorem toByteArray_encode (text : String) : (encode text).toByteArray = text.toUTF8 := by
  rw [encode, funext encodeChar_eq_utf8EncodeChar]
  exact String.utf8Encode_toList

/-- A text is encoded in the bytes that it has as a string. -/
theorem eq_encode_iff {bytes : List UInt8} {text : String} :
    bytes = encode text ↔ bytes.toByteArray = text.toUTF8 := by
  rw [← toByteArray_encode, List.toByteArray_inj]

end BytecodeObject.Utf8
