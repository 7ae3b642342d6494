import Mathlib.Data.List.TakeDrop
import Missive.Json.Reader

/-!
# JSON without loss

A value that is written without blanks is read back as it was, whatever comes after it, as long
as that cannot be taken for a further part of a number. `Json.Reads` says this of one value, for
every bound that is large enough for it; a value `Reads` if its parts do, and so records, which
are built from texts, numbers and truth values, can be read back as a whole (`ofBytes?_render`).
-/

namespace Missive

/-! ### Numbers -/

namespace Decimal

theorem head?_digits {value : Nat} (positive : 0 < value) : (digits value).head? ≠ some 48 := by
  fun_induction digits value with
  | case1 value small =>
      have places : ∀ value < 10, 0 < value → [digit value].head? ≠ some 48 := by decide
      exact places value small positive
  | case2 value large ih =>
      cases shape : digits (value / 10) with
      | nil => exact absurd shape (digits_ne_nil _)
      | cons first rest =>
          have before := ih (by omega)
          rw [shape] at before
          exact before

theorem length_digits_of_head? {value : Nat} (zero : (digits value).head? = some 48) :
    (digits value).length = 1 := by
  rcases Nat.eq_zero_or_pos value with rfl | positive
  · rw [digits]
    rfl
  · exact absurd zero (head?_digits positive)

end Decimal

namespace Json

/-- What may come after a value: nothing, or a sign between two values. -/
def Ends (rest : Bytes) : Prop :=
  ∀ byte ∈ rest.head?, byte = comma ∨ byte = closeBracket ∨ byte = closeBrace

theorem ends_nil : Ends [] := by
  intro byte member
  cases member

theorem ends_comma (rest : Bytes) : Ends (comma :: rest) := by
  intro byte member
  cases member
  exact .inl rfl

theorem ends_closeBracket (rest : Bytes) : Ends (closeBracket :: rest) := by
  intro byte member
  cases member
  exact .inr (.inl rfl)

theorem ends_closeBrace (rest : Bytes) : Ends (closeBrace :: rest) := by
  intro byte member
  cases member
  exact .inr (.inr rfl)

/-- Nothing of a number comes after a value. -/
theorem Ends.not_digit {rest : Bytes} (ends : Ends rest) :
    ∀ byte ∈ rest.head?, Decimal.isDigit byte = false ∧ byte ≠ point ∧ byte ≠ 101 ∧ byte ≠ 69 := by
  intro byte member
  rcases ends byte member with rfl | rfl | rfl <;> decide

theorem span_digits {value : Nat} {rest : Bytes} (ends : Ends rest) :
    (Decimal.digits value ++ rest).span Decimal.isDigit = (Decimal.digits value, rest) := by
  have all : ∀ byte ∈ Decimal.digits value, Decimal.isDigit byte = true :=
    List.all_eq_true.mp (Decimal.all_isDigit_digits value)
  have none : rest.takeWhile Decimal.isDigit = [] ∧ rest.dropWhile Decimal.isDigit = rest := by
    cases rest with
    | nil => exact ⟨rfl, rfl⟩
    | cons byte rest =>
        have other := (ends.not_digit byte rfl).1
        simp [other]
  rw [List.span_eq_takeWhile_dropWhile, List.takeWhile_append_of_pos all,
    List.dropWhile_append_of_pos all, none.1, none.2, List.append_nil]

theorem readNumeral_digits {value : Nat} {rest : Bytes} (ends : Ends rest) :
    readNumeral (Decimal.digits value ++ rest) =
      some (⟨false, Decimal.digits value, [], none⟩, rest) := by
  have unsigned : sign? minus (Decimal.digits value ++ rest) = none := by
    cases shape : Decimal.digits value with
    | nil => exact absurd shape (Decimal.digits_ne_nil value)
    | cons byte later =>
        have digit : Decimal.isDigit byte = true := by
          have all := Decimal.all_isDigit_digits value
          rw [shape, List.all_cons, Bool.and_eq_true] at all
          exact all.1
        have other : byte ≠ minus := by
          rintro rfl
          exact absurd digit (by decide)
        simp [sign?, other]
  have whole : readWhole (Decimal.digits value ++ rest) = some (Decimal.digits value, rest) := by
    have single :
        ¬((Decimal.digits value).head? = some 48 ∧ (Decimal.digits value).length ≠ 1) := by
      rintro ⟨zero, long⟩
      exact long (Decimal.length_digits_of_head? zero)
    simp only [readWhole, readDigits, span_digits ends, List.isEmpty_iff,
      Decimal.digits_ne_nil, if_false, if_neg single, Option.bind_eq_bind, Option.bind_some,
      Option.pure_def]
  have fraction : readFraction rest = some ([], rest) := by
    cases rest with
    | nil => rfl
    | cons byte rest =>
        have other := (ends.not_digit byte rfl).2.1
        simp [readFraction, sign?, other]
  have exponent : readExponent rest = some (none, rest) := by
    cases rest with
    | nil => rfl
    | cons byte rest =>
        have other := (ends.not_digit byte rfl).2.2
        simp [readExponent, other.1, other.2]
  simp only [readNumeral, unsigned, whole, fraction, exponent, Option.bind_eq_bind,
    Option.bind_some, Option.pure_def]

/-! ### Texts -/

theorem readText_escapeByte (byte : UInt8) (rest : Bytes) :
    readText (escapeByte byte ++ rest) =
      (readText rest).map fun (body, rest) => (escapeByte byte ++ body, rest) := by
  unfold escapeByte
  split
  · rename_i letter short
    rcases unescapeLetter?_shortEscape? short with ⟨unnumbered, meant⟩
    rw [List.cons_append, List.cons_append, List.nil_append, readText.eq_def]
    cases read : readText rest <;> simp +decide [unnumbered, meant, read]
  · rename_i long
    split
    · rename_i control
      have unit := codeUnit?_control byte
      rw [List.cons_append, List.cons_append, List.cons_append, List.cons_append,
        List.cons_append, List.cons_append, List.nil_append, readText.eq_def]
      cases read : readText rest <;> simp +decide [unit, read]
    · rename_i printed
      have plain : byte ≠ backslash := by
        rintro rfl
        exact absurd long (by decide)
      have inner : byte ≠ quote := by
        rintro rfl
        exact absurd long (by decide)
      rw [List.cons_append, List.nil_append, readText.eq_def]
      cases read : readText rest <;> simp [plain, inner, printed, read]

/-- A written text ends where it was ended. -/
theorem readText_escape (text rest : Bytes) :
    readText (escape text ++ quote :: rest) = some (escape text, rest) := by
  induction text with
  | nil =>
      rw [escape, List.flatMap_nil, List.nil_append, readText.eq_def]
      simp
  | cons byte text ih =>
      have parts : escape (byte :: text) = escapeByte byte ++ escape text := rfl
      rw [parts, List.append_assoc, readText_escapeByte, ih]
      rfl

/-! ### Values -/

theorem skipBlanks_cons {byte : UInt8} (printed : isBlank byte = false) (rest : Bytes) :
    skipBlanks (byte :: rest) = byte :: rest := by
  rw [skipBlanks, List.dropWhile_cons_of_neg (by simp [printed])]

@[simp]
theorem sign?_self (sign : UInt8) (rest : Bytes) : sign? sign (sign :: rest) = some rest := by
  simp [sign?]

theorem sign?_of_ne {sign byte : UInt8} (other : byte ≠ sign) (rest : Bytes) :
    sign? sign (byte :: rest) = none := by
  rw [sign?, if_neg other]

/-- A value that is read back from its written form, whatever comes after it. -/
structure Reads (value : Json) : Prop where
  /-- A written value cannot be taken for a blank or for the end of an array. -/
  starts : ∃ byte rest, value.render = byte :: rest ∧ isBlank byte = false ∧ byte ≠ closeBracket
  reads : ∀ (bound : Nat) (rest : Bytes), Ends rest → 2 * value.render.length ≤ bound →
    readValue bound (value.render ++ rest) = some (value, rest)

theorem reads_of_readScalar {value : Json} {byte : UInt8} {tail : Bytes}
    (shape : value.render = byte :: tail) (printed : isBlank byte = false)
    (flat : byte ≠ openBracket ∧ byte ≠ openBrace ∧ byte ≠ closeBracket)
    (scalar : ∀ rest, Ends rest → readScalar (value.render ++ rest) = some (value, rest)) :
    value.Reads := by
  refine ⟨⟨byte, tail, shape, printed, flat.2.2⟩, ?_⟩
  intro bound rest ends enough
  cases bound with
  | zero =>
      rw [shape, List.length_cons] at enough
      omega
  | succ bound =>
      have known := scalar rest ends
      rw [shape, List.cons_append] at known ⊢
      simp only [readValue, skipBlanks_cons printed, sign?_of_ne flat.1, sign?_of_ne flat.2.1,
        known]

/-- The words of the notation by their bytes. -/
theorem ofString_words : Bytes.ofString "null" = [110, 117, 108, 108] ∧
    Bytes.ofString "true" = [116, 114, 117, 101] ∧
    Bytes.ofString "false" = [102, 97, 108, 115, 101] := by
  decide +kernel

theorem reads_bool (value : Bool) : (bool value).Reads := by
  cases value with
  | false =>
      have shape : render (bool false) = [102, 97, 108, 115, 101] := ofString_words.2.2
      refine reads_of_readScalar shape (by decide) (by decide) ?_
      intro rest _
      rw [shape]
      simp +decide [readScalar, ofString_words, word?, sign?, List.isPrefixOf]
  | true =>
      have shape : render (bool true) = [116, 114, 117, 101] := ofString_words.2.1
      refine reads_of_readScalar shape (by decide) (by decide) ?_
      intro rest _
      rw [shape]
      simp +decide [readScalar, ofString_words, word?, sign?, List.isPrefixOf]

theorem render_ofNat (value : Nat) : (ofNat value).render = Decimal.digits value := by
  simp [ofNat, render, renderScalar, renderNumeral]

theorem ne_of_isDigit {byte : UInt8} (digit : Decimal.isDigit byte = true) (sign : UInt8)
    (other : Decimal.isDigit sign = false) : byte ≠ sign := by
  rintro rfl
  rw [digit] at other
  cases other

theorem reads_ofNat (value : Nat) : (ofNat value).Reads := by
  cases shape : Decimal.digits value with
  | nil => exact absurd shape (Decimal.digits_ne_nil value)
  | cons byte tail =>
      have digit : Decimal.isDigit byte = true := by
        have all := Decimal.all_isDigit_digits value
        rw [shape, List.all_cons, Bool.and_eq_true] at all
        exact all.1
      have other := ne_of_isDigit digit
      have printed : isBlank byte = false := by
        simp [isBlank, other 32 rfl, other 9 rfl, other 10 rfl, other 13 rfl]
      refine reads_of_readScalar ((render_ofNat value).trans shape) printed
        ⟨other _ rfl, other _ rfl, other _ rfl⟩ ?_
      intro rest ends
      have numeral := @readNumeral_digits value rest ends
      rw [render_ofNat]
      rw [shape, List.cons_append] at numeral ⊢
      simp [readScalar, sign?_of_ne (other quote rfl), ofString_words, word?, List.isPrefixOf,
        (other 110 rfl).symm, (other 116 rfl).symm, (other 102 rfl).symm, numeral, ofNat, shape]

theorem reads_string (text : Bytes) : (string (escape text)).Reads := by
  have shape : render (string (escape text)) = quote :: (escape text ++ [quote]) := rfl
  refine reads_of_readScalar shape (by decide) (by decide) ?_
  intro rest _
  rw [shape, List.cons_append, List.append_assoc, List.singleton_append, readScalar, sign?_self]
  simp only [readText_escape, Option.bind_eq_bind, Option.bind_some, Option.pure_def]

/-! ### Arrays and objects -/

theorem readItems_render {items : List Json} (present : items ≠ [])
    (parts : ∀ item ∈ items, item.Reads) (bound : Nat) (rest : Bytes)
    (enough : 2 * (renderItems items).length + 1 ≤ bound) :
    readItems bound (renderItems items ++ closeBracket :: rest) = some (items, rest) := by
  induction items generalizing bound with
  | nil => exact absurd rfl present
  | cons item items ih =>
      rcases Nat.exists_eq_succ_of_ne_zero (by omega : bound ≠ 0) with ⟨bound, rfl⟩
      have first := parts item List.mem_cons_self
      cases items with
      | nil =>
          rw [renderItems] at enough ⊢
          have known := first.reads bound _ (ends_closeBracket rest) (by omega)
          rw [readItems]
          simp only [known, Option.bind_eq_bind, Option.bind_some, Option.pure_def,
            skipBlanks_cons (by decide : isBlank closeBracket = false), sign?_self,
            sign?_of_ne (by decide : closeBracket ≠ comma)]
      | cons next later =>
          have more := ih (List.cons_ne_nil _ _)
            fun other member => parts other (List.mem_cons_of_mem item member)
          rw [renderItems.eq_3 _ _ (List.cons_ne_nil _ _)] at enough ⊢
          rw [List.length_append, List.length_cons] at enough
          rcases first.starts with ⟨byte, tail, shape, _⟩
          have filled : 0 < item.render.length := by
            rw [shape]
            exact Nat.succ_pos _
          have known := first.reads bound _
            (ends_comma (renderItems (next :: later) ++ closeBracket :: rest)) (by omega)
          rw [List.append_assoc, List.cons_append, readItems]
          simp only [known, Option.bind_eq_bind, Option.bind_some, Option.pure_def,
            skipBlanks_cons (by decide : isBlank comma = false), sign?_self,
            more bound (by omega)]

theorem reads_array {items : List Json} (parts : ∀ item ∈ items, item.Reads) :
    (array items).Reads := by
  have shape : render (array items) = openBracket :: (renderItems items ++ [closeBracket]) := rfl
  refine ⟨⟨openBracket, _, shape, by decide, by decide⟩, ?_⟩
  intro bound rest _ enough
  rw [shape, List.length_cons, List.length_append, List.length_singleton] at enough
  rcases Nat.exists_eq_succ_of_ne_zero (by omega : bound ≠ 0) with ⟨bound, rfl⟩
  rw [shape, List.cons_append, List.append_assoc, List.singleton_append]
  simp only [readValue, skipBlanks_cons (by decide : isBlank openBracket = false), sign?_self]
  cases items with
  | nil =>
      simp only [renderItems, List.nil_append,
        skipBlanks_cons (by decide : isBlank closeBracket = false), sign?_self]
  | cons item items =>
      have known := readItems_render (List.cons_ne_nil item items) parts bound rest (by omega)
      rcases (parts item List.mem_cons_self).starts with ⟨byte, tail, start, printed, other⟩
      have opened : ∃ tail, renderItems (item :: items) = byte :: tail := by
        cases items with
        | nil => exact ⟨tail, start⟩
        | cons next later =>
            rw [renderItems.eq_3 _ _ (List.cons_ne_nil _ _), start]
            exact ⟨_, rfl⟩
      rcases opened with ⟨tail, opened⟩
      rw [opened, List.cons_append] at known ⊢
      simp only [skipBlanks_cons printed, sign?_of_ne other, known, Option.bind_eq_bind,
        Option.bind_some, Option.pure_def]

/-- Members whose names are written texts and whose values are read back. -/
def ReadsMembers (members : List (Bytes × Json)) : Prop :=
  ∀ entry ∈ members, (∃ name, entry.1 = escape name) ∧ entry.2.Reads

theorem readMembers_render {members : List (Bytes × Json)} (present : members ≠ [])
    (parts : ReadsMembers members) (bound : Nat) (rest : Bytes)
    (enough : 2 * (renderMembers members).length + 1 ≤ bound) :
    readMembers bound (renderMembers members ++ closeBrace :: rest) = some (members, rest) := by
  induction members generalizing bound with
  | nil => exact absurd rfl present
  | cons entry members ih =>
      rcases Nat.exists_eq_succ_of_ne_zero (by omega : bound ≠ 0) with ⟨bound, rfl⟩
      rcases entry with ⟨name, value⟩
      rcases parts (name, value) List.mem_cons_self with ⟨⟨text, named⟩, first⟩
      dsimp only at named first
      cases members with
      | nil =>
          rw [renderMembers, List.length_append, List.length_cons] at enough
          have known := first.reads bound _ (ends_closeBrace rest) (by omega)
          rw [renderMembers, renderText, named, List.append_assoc, List.cons_append,
            List.cons_append, List.cons_append, List.append_assoc, List.singleton_append,
            readMembers]
          simp only [skipBlanks_cons (by decide : isBlank quote = false), sign?_self,
            readText_escape, skipBlanks_cons (by decide : isBlank colon = false), known,
            skipBlanks_cons (by decide : isBlank closeBrace = false),
            sign?_of_ne (by decide : closeBrace ≠ comma), Option.bind_eq_bind, Option.bind_some,
            Option.pure_def]
      | cons next later =>
          have more := ih (List.cons_ne_nil _ _)
            fun other member => parts other (List.mem_cons_of_mem _ member)
          rw [renderMembers.eq_3 _ _ _ (List.cons_ne_nil _ _)] at enough ⊢
          rw [List.length_append, List.length_append, List.length_cons, List.length_cons] at enough
          have known := first.reads bound _
            (ends_comma (renderMembers (next :: later) ++ closeBrace :: rest)) (by omega)
          rw [renderText, named, List.append_assoc, List.append_assoc, List.cons_append,
            List.cons_append, List.cons_append, List.cons_append, List.append_assoc,
            List.singleton_append, readMembers]
          simp only [skipBlanks_cons (by decide : isBlank quote = false), sign?_self,
            readText_escape, skipBlanks_cons (by decide : isBlank colon = false), known,
            skipBlanks_cons (by decide : isBlank comma = false), more bound (by omega),
            Option.bind_eq_bind, Option.bind_some, Option.pure_def]

theorem reads_object {members : List (Bytes × Json)} (parts : ReadsMembers members) :
    (object members).Reads := by
  have shape : render (object members) = openBrace :: (renderMembers members ++ [closeBrace]) := rfl
  refine ⟨⟨openBrace, _, shape, by decide, by decide⟩, ?_⟩
  intro bound rest _ enough
  rw [shape, List.length_cons, List.length_append, List.length_singleton] at enough
  rcases Nat.exists_eq_succ_of_ne_zero (by omega : bound ≠ 0) with ⟨bound, rfl⟩
  rw [shape, List.cons_append, List.append_assoc, List.singleton_append]
  simp only [readValue, skipBlanks_cons (by decide : isBlank openBrace = false), sign?_self,
    sign?_of_ne (by decide : openBrace ≠ openBracket)]
  cases members with
  | nil =>
      simp only [renderMembers, List.nil_append,
        skipBlanks_cons (by decide : isBlank closeBrace = false), sign?_self]
  | cons entry members =>
      have known := readMembers_render (List.cons_ne_nil entry members) parts bound rest (by omega)
      have start : ∃ tail, renderMembers (entry :: members) = quote :: tail := by
        rcases entry with ⟨name, value⟩
        cases members with
        | nil => exact ⟨_, rfl⟩
        | cons next later =>
            rw [renderMembers.eq_3 _ _ _ (List.cons_ne_nil _ _)]
            exact ⟨_, rfl⟩
      rcases start with ⟨tail, start⟩
      rw [start, List.cons_append] at known ⊢
      simp only [skipBlanks_cons (by decide : isBlank quote = false),
        sign?_of_ne (by decide : quote ≠ closeBrace), known, Option.bind_eq_bind,
        Option.bind_some, Option.pure_def]

/-- A value is read back from its written form. -/
theorem ofBytes?_render {value : Json} (written : value.Reads) :
    ofBytes? value.render = some value := by
  have known := written.reads (2 * value.render.length + 1) [] ends_nil (by omega)
  rw [List.append_nil] at known
  simp only [ofBytes?, known, Option.bind_eq_bind, Option.bind_some, Option.pure_def, skipBlanks,
    List.dropWhile_nil, List.isEmpty_nil, if_true]

end Json

end Missive
