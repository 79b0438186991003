/-
  Trivariate.Proofs.Numeric.Language
  ──────────────────────────────────
  **WHICH TEXTS ARE NUMBERS.**

  A decimal is spelled by digits, with a point among, before or behind them, and
  an exponent or none; a literal by a decimal or the word `Infinity`, under a sign
  or none.  Each form is a case of a relation between texts and numbers, and the
  readers read what the relations say: no other text, and no other number.

  Coordinates have the decimals of literals and some more names.  A sieve that lets
  through what looks like a decimal, and the word `Infinity`, leaves of the
  coordinates the literals.

  Main results:

      readDecimal?_eq_some      which texts are decimals, and which numbers these are
      readNumber_eq_ok          which texts are coordinates, and which numbers
      literal?_eq_some          which texts are literals, and which numbers
      sieved?_eq_literal?       literals are the coordinates that pass the sieve
      literal?_language         the language of literals, and their signs
-/
import Trivariate.Proofs.Numeric.Literal

namespace Trivariate.Numeric

/-! ## §1. Signs. -/

/-- The text does not begin with a sign. -/
def Unsigned (cs : List Char) : Prop :=
  cs.head? ≠ some '-' ∧ cs.head? ≠ some '+'

theorem unsigned_of_ne {c : Char} {cs : List Char} (hminus : c ≠ '-') (hplus : c ≠ '+') :
    Unsigned (c :: cs) :=
  ⟨fun h => hminus (Option.some.inj h), fun h => hplus (Option.some.inj h)⟩

theorem splitSign_of_unsigned {cs : List Char} (h : Unsigned cs) :
    splitSign cs = (false, cs) := by
  unfold splitSign
  split
  next => exact absurd rfl h.1
  next => exact absurd rfl h.2
  next => rfl

/-- The text spells a number under a sign, or under none; a minus turns the
number. -/
inductive Signed {α β : Type} (turn : Bool → α → β) (Spells : List Char → α → Prop) :
    List Char → β → Prop where
  | bare {cs : List Char} {a : α} (h : Spells cs a) :
      Signed turn Spells cs (turn false a)
  | plus {cs : List Char} {a : α} (h : Spells cs a) :
      Signed turn Spells ('+' :: cs) (turn false a)
  | minus {cs : List Char} {a : α} (h : Spells cs a) :
      Signed turn Spells ('-' :: cs) (turn true a)

section signed

variable {α β : Type} {turn : Bool → α → β} {Spells : List Char → α → Prop}

theorem signed_of_splitSign {cs : List Char} {a : α} (h : Spells (splitSign cs).2 a) :
    Signed turn Spells cs (turn (splitSign cs).1 a) := by
  unfold splitSign at h ⊢
  split at h
  next => exact .minus h
  next => exact .plus h
  next => exact .bare h

/-- When a sign is split off, what is spelled under it is left: it has no sign of
its own. -/
theorem splitSign_of_signed (hsign : ∀ cs a, Spells cs a → Unsigned cs) {cs : List Char}
    {b : β} (h : Signed turn Spells cs b) :
    ∃ a, Spells (splitSign cs).2 a ∧ turn (splitSign cs).1 a = b := by
  cases h with
  | @bare cs a h =>
    rw [splitSign_of_unsigned (hsign cs a h)]
    exact ⟨a, h, rfl⟩
  | @plus cs a h => exact ⟨a, h, rfl⟩
  | @minus cs a h => exact ⟨a, h, rfl⟩

/-- A reader behind a sign reads what its own texts spell under a sign. -/
theorem signed_iff {read? : List Char → Option α}
    (hread : ∀ cs a, read? cs = some a ↔ Spells cs a)
    (hsign : ∀ cs a, Spells cs a → Unsigned cs) {cs : List Char} {b : β} :
    (read? (splitSign cs).2).map (turn (splitSign cs).1) = some b
      ↔ Signed turn Spells cs b := by
  rw [Option.map_eq_some_iff]
  constructor
  · rintro ⟨a, ha, rfl⟩
    exact signed_of_splitSign ((hread _ _).1 ha)
  · intro h
    obtain ⟨a, ha, hb⟩ := splitSign_of_signed hsign h
    exact ⟨a, (hread _ _).2 ha, hb⟩

end signed

/-! ## §2. Digits and exponents. -/

/-- A digit is no other character. -/
theorem ne_of_isDigit {c d : Char} (hc : c.isDigit = true) (hd : d.isDigit = false) :
    c ≠ d := by
  rintro rfl
  exact absurd (hc.symm.trans hd) (by decide)

theorem toLower_of_isDigit {c : Char} (h : c.isDigit = true) : c.toLower = c := by
  refine Char.toLower_eq_of_not_isUpper ?_
  have hnine : '9'.val.toNat = 57 := rfl
  have hA : 'A'.val.toNat = 65 := rfl
  simp only [Char.isDigit, Char.isUpper, Bool.and_eq_true, decide_eq_true_eq,
    ge_iff_le, UInt32.le_iff_toNat_le] at h ⊢
  omega

/-- One or more digits. -/
def Digits (cs : List Char) : Prop :=
  cs ≠ [] ∧ ∀ c ∈ cs, c.isDigit = true

theorem Digits.unsigned {cs : List Char} (h : Digits cs) : Unsigned cs := by
  obtain ⟨c, cs, rfl⟩ := List.exists_cons_of_ne_nil h.1
  have hc := h.2 c List.mem_cons_self
  exact unsigned_of_ne (ne_of_isDigit hc (by decide)) (ne_of_isDigit hc (by decide))

/-- The text is that of a count. -/
def SpellsCount (cs : List Char) (n : Nat) : Prop :=
  Digits cs ∧ Nat.ofDigitChars 10 cs 0 = n

theorem readCount?_eq_some (cs : List Char) (n : Nat) :
    readCount? cs = some n ↔ SpellsCount cs n := by
  simp [readCount?, SpellsCount, Digits]

/-- The count, below zero when `negative`. -/
def withNegation (negative : Bool) (n : Nat) : Int :=
  if negative then -n else n

/-- The text is that of an exponent, or it is empty, which stands for zero. -/
inductive Exponent : List Char → Int → Prop where
  | absent : Exponent [] 0
  | present {c : Char} {cs : List Char} {k : Int} (letter : c = 'e' ∨ c = 'E')
      (h : Signed withNegation SpellsCount cs k) : Exponent (c :: cs) k

theorem readExponent?_letter {c : Char} (letter : c = 'e' ∨ c = 'E') (cs : List Char) :
    readExponent? (c :: cs)
      = (readCount? (splitSign cs).2).map (withNegation (splitSign cs).1) := by
  have hread : readExponent? (c :: cs) = _ := if_pos letter
  rw [hread]
  show Option.map _ (do let n ← readCount? (splitSign cs).2; pure (n : Int)) = _
  cases readCount? (splitSign cs).2 with
  | none => rfl
  | some n => rfl

theorem readExponent?_eq_some {cs : List Char} {k : Int} :
    readExponent? cs = some k ↔ Exponent cs k := by
  have hcount (cs : List Char) :
      (readCount? (splitSign cs).2).map (withNegation (splitSign cs).1) = some k
        ↔ Signed withNegation SpellsCount cs k :=
    signed_iff readCount?_eq_some fun _ _ h => h.1.unsigned
  constructor
  · intro h
    cases cs with
    | nil => exact Option.some.inj h ▸ .absent
    | cons c cs =>
      by_cases letter : c = 'e' ∨ c = 'E'
      · rw [readExponent?_letter letter] at h
        exact .present letter ((hcount cs).1 h)
      · have hnone : readExponent? (c :: cs) = none := if_neg letter
        rw [hnone] at h
        exact absurd h (by simp)
  · intro h
    cases h with
    | absent => rfl
    | present letter h =>
      rw [readExponent?_letter letter]
      exact (hcount _).2 h

theorem Exponent.no_digit {cs : List Char} {k : Int} (h : Exponent cs k) :
    ∀ c, cs.head? = some c → c.isDigit = false := by
  intro c hc
  cases h with
  | absent => exact absurd hc (by simp)
  | present letter h =>
    rw [← Option.some.inj hc]
    rcases letter with rfl | rfl
    · decide
    · decide

theorem Exponent.no_point (cs : List Char) (k : Int) : ¬ Exponent ('.' :: cs) k := by
  rintro ⟨⟩
  next letter h => rcases letter with h | h <;> exact absurd h (by decide)

/-! ## §3. Decimals. -/

/-- The text is that of digits with at most one point, with these digits and so many
of them behind the point. -/
inductive Significand : List Char → List Char → Nat → Prop where
  | whole {ds : List Char} (h : Digits ds) : Significand ds ds 0
  | point {ds fs : List Char} (h : Digits ds) (hf : ∀ c ∈ fs, c.isDigit = true) :
      Significand (ds ++ '.' :: fs) (ds ++ fs) fs.length
  | fraction {fs : List Char} (h : Digits fs) : Significand ('.' :: fs) fs fs.length

/-- Beside a point, there are digits before or behind it. -/
theorem Significand.of_point {ds fs : List Char} (h : ∀ c ∈ ds, c.isDigit = true)
    (hf : ∀ c ∈ fs, c.isDigit = true) (hne : ¬ (ds = [] ∧ fs = [])) :
    Significand (ds ++ '.' :: fs) (ds ++ fs) fs.length := by
  by_cases hds : ds = []
  · subst hds
    exact .fraction ⟨fun hfs => hne ⟨rfl, hfs⟩, hf⟩
  · exact .point ⟨hds, h⟩ hf

/-- The text is that of an unsigned decimal with this float nearest. -/
inductive SpellsDecimal : List Char → Float → Prop where
  | mk {cs ds es : List Char} {places : Nat} {k : Int}
      (significand : Significand cs ds places) (exponent : Exponent es k) :
      SpellsDecimal (cs ++ es) (nearestFloat (Nat.ofDigitChars 10 ds 0) (k - places))

/-- Digits without a point are followed by the exponent. -/
theorem readDecimal?_whole {ds es : List Char} {k : Int} (h : Digits ds)
    (he : Exponent es k) :
    readDecimal? (ds ++ es) = some (nearestFloat (Nat.ofDigitChars 10 ds 0) k) := by
  obtain ⟨htake, hdrop⟩ := span_digits es h.2 he.no_digit
  have hread := readExponent?_eq_some.2 he
  unfold readDecimal?
  simp only [htake, hdrop]
  split
  next after =>
    -- what follows the digits is an exponent, and none begins with a point
    exact absurd he (Exponent.no_point after k)
  next =>
    rw [if_neg fun hnil => h.1 hnil.1, hread, List.append_nil]
    simp

/-- Behind a point the digits go on, or begin. -/
theorem readDecimal?_point {ds fs es : List Char} {k : Int}
    (h : ∀ c ∈ ds, c.isDigit = true) (hf : ∀ c ∈ fs, c.isDigit = true)
    (hne : ¬ (ds = [] ∧ fs = [])) (he : Exponent es k) :
    readDecimal? (ds ++ '.' :: (fs ++ es))
      = some (nearestFloat (Nat.ofDigitChars 10 (ds ++ fs) 0) (k - fs.length)) := by
  obtain ⟨htake, hdrop⟩ := span_digits ('.' :: (fs ++ es)) h (by simp)
  obtain ⟨htake', hdrop'⟩ := span_digits es hf he.no_digit
  have hread := readExponent?_eq_some.2 he
  unfold readDecimal?
  simp only [htake, hdrop, htake', hdrop']
  rw [if_neg hne, hread]
  rfl

/-- What is read as a decimal has the text of one, and its nearest float. -/
theorem spellsDecimal_of_readDecimal? {cs : List Char} {x : Float}
    (h : readDecimal? cs = some x) : SpellsDecimal cs x := by
  have hsplit := List.takeWhile_append_dropWhile (p := Char.isDigit) (l := cs)
  have hwhole : ∀ c ∈ cs.takeWhile Char.isDigit, c.isDigit = true :=
    fun c hc => List.mem_takeWhile_imp hc
  unfold readDecimal? at h
  dsimp only at h
  generalize cs.takeWhile Char.isDigit = ds at h hsplit hwhole
  generalize cs.dropWhile Char.isDigit = rest at h hsplit
  split at h
  next after =>
    -- a second run of digits stands behind the point
    have hafter := List.takeWhile_append_dropWhile (p := Char.isDigit) (l := after)
    have hfraction : ∀ c ∈ after.takeWhile Char.isDigit, c.isDigit = true :=
      fun c hc => List.mem_takeWhile_imp hc
    generalize after.takeWhile Char.isDigit = fs at h hafter hfraction
    generalize after.dropWhile Char.isDigit = es at h hafter
    split at h
    next => exact absurd h (by simp)
    next hne =>
      obtain ⟨k, hk, rfl⟩ := Option.map_eq_some_iff.1 h
      have htext : cs = (ds ++ '.' :: fs) ++ es := by
        rw [← hsplit, ← hafter, List.append_assoc]
        rfl
      rw [htext]
      exact .mk (.of_point hwhole hfraction hne) (readExponent?_eq_some.1 hk)
  next =>
    split at h
    next => exact absurd h (by simp)
    next hne =>
      obtain ⟨k, hk, rfl⟩ := Option.map_eq_some_iff.1 h
      rw [← hsplit, List.append_nil]
      exact .mk (.whole ⟨fun hds => hne ⟨hds, rfl⟩, hwhole⟩) (readExponent?_eq_some.1 hk)

/-- The texts that are read as decimals are those of decimals, with their nearest
floats. -/
theorem readDecimal?_eq_some {cs : List Char} {x : Float} :
    readDecimal? cs = some x ↔ SpellsDecimal cs x := by
  refine ⟨spellsDecimal_of_readDecimal?, ?_⟩
  rintro ⟨significand, exponent⟩
  cases significand with
  | whole h => simpa using readDecimal?_whole h exponent
  | point h hf =>
    rw [List.append_assoc]
    exact readDecimal?_point h.2 hf (fun hnil => h.1 hnil.1) exponent
  | fraction h =>
    exact readDecimal?_point (fun _ hc => absurd hc List.not_mem_nil) h.2
      (fun hnil => h.1 hnil.2) exponent

/-! ## §4. How a decimal looks. -/

/-- Whether the text begins as a decimal does. -/
def beginsDecimal (cs : List Char) : Bool :=
  cs.head?.any fun c => c.isDigit || c == '.'

/-- Digits and the marks of a decimal. -/
def isDecimalMark (c : Char) : Bool :=
  c.isDigit || ['.', 'e', 'E', '+', '-'].contains c

theorem isDecimalMark_of_isDigit {c : Char} (h : c.isDigit = true) :
    isDecimalMark c = true := by
  rw [isDecimalMark, h, Bool.true_or]

theorem beginsDecimal_cons {c : Char} {cs : List Char} :
    beginsDecimal (c :: cs) = true ↔ c.isDigit = true ∨ c = '.' := by
  simp [beginsDecimal]

theorem exists_of_beginsDecimal {cs : List Char} (h : beginsDecimal cs = true) :
    ∃ c rest, cs = c :: rest ∧ (c.isDigit = true ∨ c = '.') := by
  cases cs with
  | nil => exact absurd h (by decide)
  | cons c rest => exact ⟨c, rest, rfl, beginsDecimal_cons.1 h⟩

theorem Digits.begins {cs : List Char} (h : Digits cs) (rest : List Char) :
    beginsDecimal (cs ++ rest) = true := by
  obtain ⟨c, cs, rfl⟩ := List.exists_cons_of_ne_nil h.1
  exact beginsDecimal_cons.2 (.inl (h.2 c List.mem_cons_self))

theorem Significand.begins {cs ds : List Char} {places : Nat} (h : Significand cs ds places)
    (rest : List Char) : beginsDecimal (cs ++ rest) = true := by
  cases h with
  | whole h => exact h.begins rest
  | point h hf =>
    rw [List.append_assoc]
    exact h.begins _
  | fraction h => exact beginsDecimal_cons.2 (.inr rfl)

theorem Significand.marks {cs ds : List Char} {places : Nat} (h : Significand cs ds places) :
    ∀ c ∈ cs, isDecimalMark c = true := by
  intro c hc
  cases h with
  | whole h => exact isDecimalMark_of_isDigit (h.2 c hc)
  | point h hf =>
    rcases List.mem_append.1 hc with hc | hc
    · exact isDecimalMark_of_isDigit (h.2 c hc)
    · rcases List.mem_cons.1 hc with rfl | hc
      · decide
      · exact isDecimalMark_of_isDigit (hf c hc)
  | fraction h =>
    rcases List.mem_cons.1 hc with rfl | hc
    · decide
    · exact isDecimalMark_of_isDigit (h.2 c hc)

theorem Exponent.marks {cs : List Char} {k : Int} (h : Exponent cs k) :
    ∀ c ∈ cs, isDecimalMark c = true := by
  intro c hc
  cases h with
  | absent => exact absurd hc List.not_mem_nil
  | present letter h =>
    rcases List.mem_cons.1 hc with rfl | hc
    · rcases letter with rfl | rfl
      · decide
      · decide
    · cases h with
      | bare h => exact isDecimalMark_of_isDigit (h.1.2 c hc)
      | plus h =>
        rcases List.mem_cons.1 hc with rfl | hc
        · decide
        · exact isDecimalMark_of_isDigit (h.1.2 c hc)
      | minus h =>
        rcases List.mem_cons.1 hc with rfl | hc
        · decide
        · exact isDecimalMark_of_isDigit (h.1.2 c hc)

theorem SpellsDecimal.begins {cs : List Char} {x : Float} (h : SpellsDecimal cs x) :
    beginsDecimal cs = true := by
  obtain ⟨significand, -⟩ := h
  exact significand.begins _

theorem SpellsDecimal.marks {cs : List Char} {x : Float} (h : SpellsDecimal cs x) :
    cs.all isDecimalMark = true := by
  obtain ⟨significand, exponent⟩ := h
  rw [List.all_append, List.all_eq_true.2 significand.marks,
    List.all_eq_true.2 exponent.marks, Bool.and_self]

theorem unsigned_of_beginsDecimal {cs : List Char} (h : beginsDecimal cs = true) :
    Unsigned cs := by
  obtain ⟨c, rest, rfl, hc | rfl⟩ := exists_of_beginsDecimal h
  · exact unsigned_of_ne (ne_of_isDigit hc (by decide)) (ne_of_isDigit hc (by decide))
  · exact unsigned_of_ne (by decide) (by decide)

/-- What begins as a decimal is no word, in any letter case. -/
theorem ne_word_of_beginsDecimal {cs : List Char} (h : beginsDecimal cs = true) {e : Char}
    (he : e.isDigit = false) (hpoint : '.' ≠ e) (es : List Char) :
    cs.map Char.toLower ≠ e :: es := by
  intro heq
  obtain ⟨c, rest, rfl, hc⟩ := exists_of_beginsDecimal h
  rw [List.map_cons] at heq
  have hlower : c.toLower = e := (List.cons.inj heq).1
  rcases hc with hc | rfl
  · rw [toLower_of_isDigit hc] at hlower
    exact ne_of_isDigit hc he hlower
  · exact hpoint hlower

/-! ## §5. Coordinates. -/

/-- The text is that of an unsigned coordinate, which may be a name in any letter
case. -/
inductive CoordinateMagnitude : List Char → Float → Prop where
  | infinity {cs : List Char}
      (h : cs.map Char.toLower = "inf".toList ∨ cs.map Char.toLower = "infinity".toList) :
      CoordinateMagnitude cs infinity
  | nan {cs : List Char} (h : cs.map Char.toLower = "nan".toList) :
      CoordinateMagnitude cs nan
  | decimal {cs : List Char} {x : Float} (h : SpellsDecimal cs x) :
      CoordinateMagnitude cs x

/-- The text is that of a coordinate. -/
def Coordinate : List Char → Float → Prop :=
  Signed withSign CoordinateMagnitude

theorem readMagnitude?_of_begins {cs : List Char} (h : beginsDecimal cs = true) :
    readMagnitude? cs = readDecimal? cs := by
  have hinf : cs.map Char.toLower ≠ "inf".toList :=
    ne_word_of_beginsDecimal h (by decide) (by decide) _
  have hinfinity : cs.map Char.toLower ≠ "infinity".toList :=
    ne_word_of_beginsDecimal h (by decide) (by decide) _
  have hnan : cs.map Char.toLower ≠ "nan".toList :=
    ne_word_of_beginsDecimal h (by decide) (by decide) _
  unfold readMagnitude?
  simp only [hinf, hinfinity, hnan, or_self, if_false]

theorem readMagnitude?_eq_some (cs : List Char) (x : Float) :
    readMagnitude? cs = some x ↔ CoordinateMagnitude cs x := by
  constructor
  · intro h
    unfold readMagnitude? at h
    dsimp only at h
    split at h
    next hinf => exact Option.some.inj h ▸ .infinity hinf
    next =>
      split at h
      next hnan => exact Option.some.inj h ▸ .nan hnan
      next => exact .decimal (readDecimal?_eq_some.1 h)
  · intro h
    cases h with
    | infinity h => exact if_pos h
    | nan h =>
      -- the names of infinity are tried first
      unfold readMagnitude?
      dsimp only
      rw [h, if_neg (by decide), if_pos rfl]
    | decimal h =>
      rw [readMagnitude?_of_begins h.begins]
      exact readDecimal?_eq_some.2 h

/-- A name has no sign of its own, since letters are left where signs are. -/
theorem unsigned_of_word {cs es : List Char} {e : Char} (h : cs.map Char.toLower = e :: es)
    (hminus : '-' ≠ e) (hplus : '+' ≠ e) : Unsigned cs := by
  cases cs with
  | nil => exact absurd h (by simp)
  | cons c cs =>
    rw [List.map_cons] at h
    have hlower : c.toLower = e := (List.cons.inj h).1
    refine unsigned_of_ne ?_ ?_
    · rintro rfl
      exact hminus hlower
    · rintro rfl
      exact hplus hlower

theorem CoordinateMagnitude.unsigned (cs : List Char) (x : Float)
    (h : CoordinateMagnitude cs x) : Unsigned cs := by
  cases h with
  | infinity h =>
    rcases h with h | h
    · exact unsigned_of_word h (by decide) (by decide)
    · exact unsigned_of_word h (by decide) (by decide)
  | nan h => exact unsigned_of_word h (by decide) (by decide)
  | decimal h => exact unsigned_of_beginsDecimal h.begins

/-- Apart from its fault, the reader of coordinates is one behind a sign. -/
theorem toOption_readNumber (cs : List Char) :
    (readNumber cs).toOption
      = (readMagnitude? (splitSign cs).2).map (withSign (splitSign cs).1) := by
  cases cs with
  | nil => rfl
  | cons c cs =>
    unfold readNumber
    dsimp only
    cases readMagnitude? (splitSign (c :: cs)).2 with
    | none => rfl
    | some x => rfl

/-- The texts that are read as coordinates are those of coordinates, with their
numbers. -/
theorem readNumber_eq_ok {cs : List Char} {x : Float} :
    readNumber cs = .ok x ↔ Coordinate cs x := by
  have hread : readNumber cs = .ok x ↔ (readNumber cs).toOption = some x := by
    cases readNumber cs with
    | error fault => simp [Except.toOption]
    | ok y => simp [Except.toOption]
  rw [hread, toOption_readNumber]
  exact signed_iff readMagnitude?_eq_some CoordinateMagnitude.unsigned

/-! ## §6. Literals. -/

/-- The text is that of an unsigned literal. -/
inductive Magnitude : List Char → Float → Prop where
  | infinity : Magnitude "Infinity".toList infinity
  | decimal {cs : List Char} {x : Float} (h : SpellsDecimal cs x) : Magnitude cs x

/-- The text is that of a literal: of a decimal or `Infinity`, under a sign or
none. -/
def Literal : List Char → Float → Prop :=
  Signed withSign Magnitude

/-- The value of an unsigned literal. -/
def literalMagnitude? (cs : List Char) : Option Float :=
  if cs = "Infinity".toList then some infinity else readDecimal? cs

theorem literal?_eq (text : String) :
    literal? text
      = (literalMagnitude? (splitSign text.toList).2).map
          (withSign (splitSign text.toList).1) :=
  rfl

theorem literalMagnitude?_of_begins {cs : List Char} (h : beginsDecimal cs = true) :
    literalMagnitude? cs = readDecimal? cs := by
  refine if_neg ?_
  rintro rfl
  exact absurd h (by decide)

theorem literalMagnitude?_eq_some (cs : List Char) (x : Float) :
    literalMagnitude? cs = some x ↔ Magnitude cs x := by
  constructor
  · intro h
    unfold literalMagnitude? at h
    split at h
    next hword =>
      rw [hword, ← Option.some.inj h]
      exact .infinity
    next => exact .decimal (readDecimal?_eq_some.1 h)
  · intro h
    cases h with
    | infinity => rfl
    | decimal h =>
      rw [literalMagnitude?_of_begins h.begins]
      exact readDecimal?_eq_some.2 h

theorem Magnitude.unsigned (cs : List Char) (x : Float) (h : Magnitude cs x) :
    Unsigned cs := by
  cases h with
  | infinity => exact unsigned_of_ne (by decide) (by decide)
  | decimal h => exact unsigned_of_beginsDecimal h.begins

/-- The texts that are read as literals are those of literals, with their numbers. -/
theorem literal?_eq_some {text : String} {x : Float} :
    literal? text = some x ↔ Literal text.toList x := by
  rw [literal?_eq]
  exact signed_iff literalMagnitude?_eq_some Magnitude.unsigned

/-! ## §7. The sieve. -/

/-- What the sieve lets through: the word `Infinity`, and what looks like a
decimal. -/
def passes (cs : List Char) : Bool :=
  cs == "Infinity".toList || (beginsDecimal cs && cs.all isDecimalMark)

/-- The coordinates whose text, without its sign, passes the sieve. -/
def sieved? (text : String) : Option Float :=
  if passes (splitSign text.toList).2 then (readNumber text.toList).toOption else none

theorem passes_of_magnitude {cs : List Char} {x : Float} (h : Magnitude cs x) :
    passes cs = true := by
  cases h with
  | infinity => decide
  | decimal h => simp [passes, h.begins, h.marks]

/-- On what passes the sieve, the two readers agree. -/
theorem readMagnitude?_of_passes {cs : List Char} (h : passes cs = true) :
    readMagnitude? cs = literalMagnitude? cs := by
  have hcases : cs = "Infinity".toList ∨ beginsDecimal cs = true := by
    rcases Bool.or_eq_true_iff.1 h with h | h
    · exact .inl (beq_iff_eq.1 h)
    · exact .inr (Bool.and_eq_true_iff.1 h).1
  rcases hcases with rfl | h
  · rfl
  · rw [readMagnitude?_of_begins h, literalMagnitude?_of_begins h]

/-- The literals are the coordinates that pass the sieve. -/
theorem sieved?_eq_literal? (text : String) : sieved? text = literal? text := by
  rw [sieved?, literal?_eq, toOption_readNumber]
  generalize splitSign text.toList = split
  by_cases h : passes split.2 = true
  · rw [if_pos h, readMagnitude?_of_passes h]
  · -- what the sieve keeps back is no literal
    rw [if_neg h]
    cases hbody : literalMagnitude? split.2 with
    | none => rfl
    | some x =>
      have hmagnitude := (literalMagnitude?_eq_some _ _).1 hbody
      exact absurd (passes_of_magnitude hmagnitude) h

/-! ## §8. The language of literals. -/

/-- A sign in front of an unsigned text is split off, and the text is left. -/
theorem literal?_signed {text : String} (h : Unsigned text.toList) :
    literal? ("+" ++ text) = literal? text
      ∧ literal? ("-" ++ text) = (literal? text).map (- ·) := by
  have hbare : literal? text = literalMagnitude? text.toList := by
    rw [literal?_eq, splitSign_of_unsigned h]
    exact Option.map_id'
  have hplus : ("+" ++ text).toList = '+' :: text.toList := String.toList_append
  have hminus : ("-" ++ text).toList = '-' :: text.toList := String.toList_append
  constructor
  · rw [literal?_eq, hplus, hbare]
    exact Option.map_id'
  · rw [literal?_eq, hminus, hbare]
    rfl

/-- The literals are the coordinates that pass the sieve, and these are the texts of a
decimal or `Infinity` under a sign or none; none is NaN, a plus changes nothing, and a
minus turns the number. -/
theorem literal?_language (text : String) :
    sieved? text = literal? text
      ∧ (∀ x, literal? text = some x ↔ Literal text.toList x)
      ∧ (∀ x, literal? text = some x → x.isNaN = false)
      ∧ (Unsigned text.toList →
          literal? ("+" ++ text) = literal? text
            ∧ literal? ("-" ++ text) = (literal? text).map (- ·)) :=
  ⟨sieved?_eq_literal? text, fun _ => literal?_eq_some, fun _ => isNaN_literal?,
    literal?_signed⟩

theorem literal?_language_five :
    Unsigned ".5e1".toList ∧ literal? ".5e1" = some 5 ∧ (5 : Float).isNaN = false
      ∧ literal? "+.5e1" = some 5 ∧ literal? "-.5e1" = some (-5) := by
  have hunsigned : Unsigned ".5e1".toList := ⟨by decide, by decide⟩
  have hfive : literal? ".5e1" = some 5 := by decide +kernel
  obtain ⟨-, -, hnan, hsigned⟩ := literal?_language ".5e1"
  obtain ⟨hplus, hminus⟩ := hsigned hunsigned
  rw [hfive] at hplus hminus
  exact ⟨hunsigned, hfive, hnan 5 hfive, hplus, hminus⟩

end Trivariate.Numeric
