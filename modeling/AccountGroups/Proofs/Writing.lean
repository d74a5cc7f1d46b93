import AccountGroups.Json.Reading
import AccountGroups.Proofs.Cutting

/-!
# Reading what was written

A JSON value whose numbers fit into 64 bits is written as a text without flaws, and this text is read
as the value, from its characters as well as from its octets. Each reader is shown to take what was
written off the front of a text, whatever closes the value behind it.
-/

namespace AccountGroups

namespace Text

theorem toNat_tail (v : Nat) : (UInt8.ofNat (v % 64 + 0x80)).toNat = v % 64 + 0x80 := by
  rw [UInt8.toNat_ofNat']
  omega

theorem isTail_tail (v : Nat) : isTail (UInt8.ofNat (v % 64 + 0x80)) = true := by
  simp only [isTail, Bool.and_eq_true, decide_eq_true_eq, UInt8.le_iff_toNat_le, toNat_tail,
    UInt8.toNat_ofNat]
  omega

theorem tailBits_tail (v : Nat) : tailBits (UInt8.ofNat (v % 64 + 0x80)) = v % 64 := by
  have htail := toNat_tail v
  unfold tailBits
  omega

/-- The octets of a character are read as the character, and it takes all of them. -/
theorem headChar?_encode (c : Char) (rest : List UInt8) :
    headChar? (String.utf8EncodeChar c ++ rest) =
      some (c, (String.utf8EncodeChar c).length - 1) := by
  have hvalid : c.val.toNat < 0xD800 ∨ (0xDFFF < c.val.toNat ∧ c.val.toNat < 0x110000) := c.valid
  have hchar : Char.ofNat c.val.toNat = c := Char.ofNat_toNat c
  generalize hv : c.val.toNat = v at hvalid hchar
  simp only [String.utf8EncodeChar, hv]
  split
  · have hsum : v % 2 ^ 8 = v := by omega
    simp only [List.cons_append, headChar?, UInt8.lt_iff_toNat_lt, UInt8.toNat_ofNat,
      UInt8.toNat_ofNat', hsum]
    rw [if_pos (by omega), hchar]
    rfl
  split
  · have hsum : ((v / 64 % 0x20 + 0xc0) % 2 ^ 8 - 0xC0) * 64 + v % 64 = v := by omega
    simp only [List.cons_append, headChar?, UInt8.lt_iff_toNat_lt, UInt8.le_iff_toNat_le,
      UInt8.toNat_ofNat, UInt8.toNat_ofNat', Bool.and_eq_true, decide_eq_true_eq, isTail_tail,
      tailBits_tail, hsum, if_true]
    rw [if_neg (by omega), if_pos (by omega), hchar]
    rfl
  split
  · have hsum : (((v / 4096 % 0x10 + 0xe0) % 2 ^ 8 - 0xE0) * 64 + v / 64 % 64) * 64 + v % 64 =
        v := by
      omega
    simp only [List.cons_append, headChar?, UInt8.lt_iff_toNat_lt, UInt8.le_iff_toNat_le,
      UInt8.toNat_ofNat, UInt8.toNat_ofNat', Bool.and_eq_true, Bool.or_eq_true, bne_iff_ne, ne_eq,
      ← UInt8.toNat_inj, decide_eq_true_eq, isSecondOfThree, isTail_tail,
      tailBits_tail, true_and, and_true, hsum, hchar]
    rw [if_neg (by omega), if_neg (by omega), if_pos (by omega), if_pos (by omega)]
    rfl
  · have hsum : ((((v / 262144 % 0x08 + 0xf0) % 2 ^ 8 - 0xF0) * 64 + v / 4096 % 64) * 64 +
        v / 64 % 64) * 64 + v % 64 = v := by
      omega
    simp only [List.cons_append, headChar?, UInt8.lt_iff_toNat_lt, UInt8.le_iff_toNat_le,
      UInt8.toNat_ofNat, UInt8.toNat_ofNat', Bool.and_eq_true, Bool.or_eq_true, bne_iff_ne, ne_eq,
      ← UInt8.toNat_inj, decide_eq_true_eq, isSecondOfFour, isTail_tail,
      tailBits_tail, true_and, and_true, hsum, hchar]
    rw [if_neg (by omega), if_neg (by omega), if_neg (by omega), if_pos (by omega),
      if_pos (by omega)]
    rfl

theorem glyphsFrom_append (taken rest : List UInt8) :
    glyphsFrom taken.length (taken ++ rest) = glyphsFrom 0 rest := by
  induction taken with
  | nil => rfl
  | cons octet taken ih => exact ih

/-- The octets of characters are read as these characters. -/
theorem glyphs_utf8 (cs : List Char) : glyphs (utf8 cs) = cs.map .char := by
  induction cs with
  | nil => rfl
  | cons c cs ih =>
    obtain ⟨a, tail, htail⟩ := List.exists_cons_of_ne_nil (String.utf8EncodeChar_ne_nil (c := c))
    have hhead := headChar?_encode c (utf8 cs)
    rw [htail] at hhead
    rw [glyphs, utf8_cons, htail, List.cons_append, glyphsFrom, ← List.cons_append, hhead]
    simp only [List.length_cons, Nat.add_sub_cancel, glyphsFrom_append]
    rw [List.map_cons, ← ih, glyphs]

end Text

namespace Json

open Text

section Pieces

variable (gs : List Glyph)

theorem pieces_quote : pieces (.char '"' :: gs) = ([], .ok gs) := by
  rw [pieces.eq_def]
  rfl

theorem pieces_plain {c : Char} (hquote : c ≠ '"') (hescape : c ≠ '\\') (hlow : ¬ c.toNat < 0x20) :
    pieces (.char c :: gs) = withPiece (.char c) (pieces gs) := by
  rw [pieces.eq_def]
  simp only [hquote, hlow, hescape, if_false]

theorem pieces_escaped? {c e : Char} (h : escaped? c = some e) :
    pieces (.char '\\' :: .char c :: gs) = withPiece (.char e) (pieces gs) := by
  rw [pieces.eq_def]
  have hc : c ≠ 'u' := by
    rintro rfl
    cases h
  simp [h, hc]

theorem pieces_unit {a b c d : Glyph} {n : Nat} (h : hex4? a b c d = some n) :
    pieces (.char '\\' :: .char 'u' :: a :: b :: c :: d :: gs) =
      withPiece (.unit n) (pieces gs) := by
  rw [pieces.eq_def]
  simp [h]

end Pieces

/-- A character is written by an escape of its own, by its number, or as it is. -/
theorem escape_cases (c : Char) :
    (∃ d, escape c = ['\\', d] ∧ escaped? d = some c) ∨
    (c.toNat < 0x20 ∧ escape c =
      ['\\', 'u', '0', '0', hexDigit (c.toNat / 16), hexDigit (c.toNat % 16)]) ∨
    (c ≠ '"' ∧ c ≠ '\\' ∧ ¬ c.toNat < 0x20 ∧ escape c = [c]) := by
  unfold escape
  split
  · next hc =>
    subst hc
    exact .inl ⟨_, rfl, rfl⟩
  split
  · next hc =>
    subst hc
    exact .inl ⟨_, rfl, rfl⟩
  split
  · next hlow =>
    repeat' split
    case isFalse => exact .inr (.inl ⟨hlow, rfl⟩)
    all_goals
      next hc =>
        subst hc
        exact .inl ⟨_, rfl, rfl⟩
  · next hquote hescape hlow => exact .inr (.inr ⟨hquote, hescape, hlow, rfl⟩)

theorem hexValue?_hexDigit : ∀ n < 16, hexValue? (hexDigit n) = some n := by decide

/-- A written character is read as one piece, which stands for the character. -/
theorem exists_pieces_escape (c : Char) : ∃ p : Piece,
    (∀ gs, pieces ((escape c).map .char ++ gs) = withPiece p (pieces gs)) ∧
      ∀ cut ps, join cut (p :: ps) = (join cut ps).map (c :: ·) := by
  rcases escape_cases c with ⟨d, he, hd⟩ | ⟨hlow, he⟩ | ⟨hquote, hescape, hlow, he⟩
  · refine ⟨.char c, fun gs => ?_, fun cut ps => rfl⟩
    rw [he]
    exact pieces_escaped? gs hd
  · refine ⟨.unit c.toNat, fun gs => ?_, fun cut ps => ?_⟩
    · have hhex : hex4? (.char '0') (.char '0') (.char (hexDigit (c.toNat / 16)))
          (.char (hexDigit (c.toNat % 16))) = some c.toNat := by
        have hzero : hexValue? '0' = some 0 := rfl
        simp only [hex4?, hzero, hexValue?_hexDigit _ (by omega : c.toNat / 16 < 16),
          hexValue?_hexDigit _ (by omega : c.toNat % 16 < 16), Option.some.injEq]
        omega
      rw [he]
      exact pieces_unit gs hhex
    · have hlow' : isLowSurrogate c.toNat = false := by
        simp only [isLowSurrogate, Bool.and_eq_false_iff, decide_eq_false_iff_not]
        omega
      have hhigh : isHighSurrogate c.toNat = false := by
        simp only [isHighSurrogate, Bool.and_eq_false_iff, decide_eq_false_iff_not]
        omega
      rw [join.eq_def]
      simp only [hlow', hhigh, Char.ofNat_toNat, Bool.false_eq_true, if_false]
  · refine ⟨.char c, fun gs => ?_, fun cut ps => rfl⟩
    rw [he]
    exact pieces_plain gs hquote hescape hlow

theorem pieces_escaped (cs : List Char) (rest : List Glyph) : ∃ ps,
    pieces ((cs.flatMap escape).map .char ++ .char '"' :: rest) = (ps, .ok rest) ∧
      join none ps = .ok cs := by
  induction cs with
  | nil => exact ⟨[], pieces_quote rest, rfl⟩
  | cons c cs ih =>
    obtain ⟨ps, hps, hjoin⟩ := ih
    obtain ⟨p, hp, hstands⟩ := exists_pieces_escape c
    refine ⟨p :: ps, ?_, ?_⟩
    · rw [List.flatMap_cons, List.map_append, List.append_assoc, hp, hps]
      rfl
    · rw [hstands, hjoin]
      rfl

theorem quotedText_escaped (s : String) (rest : List Glyph) :
    quotedText ((s.toList.flatMap escape).map .char ++ .char '"' :: rest) = (.ok s, some rest) := by
  obtain ⟨ps, hps, hjoin⟩ := pieces_escaped s.toList rest
  simp only [quotedText, hps, hjoin, String.ofList_toList]

/-- What follows a value in a text closes or continues a list, so that no numeral goes on there. -/
def Closes (rest : List Char) : Prop :=
  ∀ c, rest.head? = some c → c = ',' ∨ c = ']' ∨ c = '}'

theorem takeDigits_append {ds : List Char} (hds : ∀ c ∈ ds, c.isDigit = true) {rest : List Char}
    (hrest : Closes rest) :
    takeDigits ((ds ++ rest).map .char) = (ds, rest.map .char) := by
  induction ds with
  | nil =>
    cases rest with
    | nil => rfl
    | cons c rest =>
      have hc : c.isDigit = false := by
        rcases hrest c rfl with rfl | rfl | rfl <;> rfl
      simp [takeDigits, hc]
  | cons d ds ih =>
    have hd := hds d List.mem_cons_self
    have ih := ih fun c hc => hds c (List.mem_cons_of_mem _ hc)
    rw [List.cons_append, List.map_cons, takeDigits, if_pos hd, ih]

/-- No numeral but that of zero begins with a zero. -/
theorem head_digits {n : Nat} (h : 0 < n) : (digits n).head? ≠ some '0' := by
  induction n using Nat.strongRecOn with
  | ind n ih =>
    by_cases hlt : n < 10
    · have hall : ∀ n < 10, 0 < n → (digits n).head? ≠ some '0' := by decide
      exact hall n hlt h
    · have hten := Nat.toDigits_of_base_le (b := 10) (by decide) (Nat.le_of_not_lt hlt)
      rw [digits, hten, List.head?_append, Option.or_of_isSome]
      · exact ih (n / 10) (by omega) (by omega)
      · rw [List.isSome_head?]
        exact Nat.toDigits_ne_nil

theorem whole_digits (n : Nat) {rest : List Char} (hrest : Closes rest) :
    whole ((digits n ++ rest).map .char) = .ok (digits n, rest.map .char) := by
  have htake := takeDigits_append (fun c => isDigit_of_mem_digits (n := n)) hrest
  unfold whole
  rw [htake]
  rcases Nat.eq_zero_or_pos n with rfl | hpos
  · rfl
  · have hhead := head_digits hpos
    generalize hds : digits n = ds at hhead
    split
    · next h => exact absurd ((Prod.mk.inj h).1 ▸ hds) Nat.toDigits_ne_nil
    · next h =>
      rw [(Prod.mk.inj h).1] at hhead
      exact absurd rfl hhead
    · rfl

theorem fraction_closes {rest : List Char} (hrest : Closes rest) :
    fraction (rest.map .char) = .ok (none, rest.map .char) := by
  cases rest with
  | nil => rfl
  | cons c rest => rcases hrest c rfl with rfl | rfl | rfl <;> rfl

theorem exponent_closes {rest : List Char} (hrest : Closes rest) :
    exponent (rest.map .char) = .ok (none, rest.map .char) := by
  cases rest with
  | nil => rfl
  | cons c rest => rcases hrest c rfl with rfl | rfl | rfl <;> rfl

theorem toDouble_le (n : Nat) : toDouble n ≤ n + Nat.pow 2 (n.log2 - 52) := by
  have hdiv := Nat.div_add_mod n (Nat.pow 2 (n.log2 - 52))
  simp only [toDouble]
  rw [Nat.mul_comm] at hdiv
  split
  · omega
  · rw [Nat.succ_mul]
    omega

theorem toDouble_lt_doubleBound {n : Nat} (h : n < UInt64.size) : toDouble n < doubleBound := by
  have hlog : n.log2 - 52 ≤ 64 := by
    rcases Nat.eq_zero_or_pos n with rfl | hpos
    · decide
    · have hlt : n.log2 < 64 := (Nat.log2_lt (Nat.ne_of_gt hpos)).2 h
      omega
  have hunit : 2 ^ (n.log2 - 52) ≤ 2 ^ 64 := Nat.pow_le_pow_right (by decide) hlog
  have hle := toDouble_le n
  have hsize : UInt64.size = 2 ^ 64 := rfl
  have hbound : 2 ^ 66 < doubleBound := by decide +kernel
  have hpow : Nat.pow 2 (n.log2 - 52) = 2 ^ (n.log2 - 52) := rfl
  omega

theorem isHuge_digits {n : Nat} (h : n < UInt64.size) :
    Numeral.isHuge ⟨false, digits n, none, none⟩ = false := by
  have hdigits : Nat.ofDigitChars 10 (digits n) 0 = n := ofDigits_digits n
  have hwhole : withDigits 0 (digits n) = (n, []) := by
    rw [withDigits_of_lt (Nat.lt_of_le_of_lt (Nat.le_of_eq hdigits) h), hdigits]
  have hbound := toDouble_lt_doubleBound h
  have hone : toDouble (Nat.pow 10 0) = 1 := toDouble_of_lt (by decide)
  have hscaled : Numeral.scaled ⟨false, digits n, none, none⟩ = (n, 0) := by
    simp [Numeral.scaled, hwhole, withDigits, Numeral.power]
  have hsmall : decide (doubleBound ≤ toDouble n * toDouble (Nat.pow 10 (0 : Int).toNat)) =
      false := by
    rw [Int.toNat_zero, hone]
    exact decide_eq_false (by omega)
  have hpower : decide (308 < (0 : Int)) = false := rfl
  simp only [Numeral.isHuge, hscaled, hsmall, hpower, Bool.and_false, Bool.or_false]

theorem number_digits {n : Nat} (h : n < UInt64.size) {rest : List Char} (hrest : Closes rest) :
    number false ((digits n ++ rest).map .char) = (.natural n, some (rest.map .char)) := by
  simp only [number, numeral?, whole_digits n hrest, fraction_closes hrest, exponent_closes hrest,
    Numeral.draft, isHuge_digits h, Bool.false_eq_true, if_false, ofDigits_digits]

mutual

/-- The numbers of a value are natural numbers that fit into 64 bits. -/
def Plain : Json → Prop
  | natural n => n < UInt64.size
  | numeral _ => False
  | array items => PlainItems items
  | object members => PlainMembers members
  | _ => True

def PlainItems : List Json → Prop
  | [] => True
  | item :: items => item.Plain ∧ PlainItems items

def PlainMembers : List (String × Json) → Prop
  | [] => True
  | (_, value) :: members => value.Plain ∧ PlainMembers members

end

/-- Items that follow an item of an array. -/
def moreItems : List Json → List Char → List Char
  | [], rest => rest
  | item :: items, rest => ',' :: item.write (moreItems items rest)

/-- Members that follow a member of an object. -/
def moreMembers : List (String × Json) → List Char → List Char
  | [], rest => rest
  | (key, value) :: members, rest =>
    ',' :: quoted key (':' :: value.write (moreMembers members rest))

theorem writeItems_cons (item : Json) (items : List Json) (rest : List Char) :
    writeItems (item :: items) rest = item.write (moreItems items rest) := by
  induction items generalizing item with
  | nil => rw [writeItems, moreItems]
  | cons next items ih => rw [writeItems, ih next, moreItems]; simp

theorem writeMembers_cons (key : String) (value : Json) (members : List (String × Json))
    (rest : List Char) :
    writeMembers ((key, value) :: members) rest =
      quoted key (':' :: value.write (moreMembers members rest)) := by
  induction members generalizing key value with
  | nil => rw [writeMembers, moreMembers]
  | cons next members ih => rw [writeMembers, ih next.1 next.2, moreMembers]; simp

theorem length_quoted (s : String) (rest : List Char) :
    rest.length + 1 < (quoted s rest).length := by
  simp only [quoted, List.length_cons, List.length_append]
  omega

mutual

theorem length_write : ∀ {j : Json}, j.Plain → ∀ rest, rest.length < (j.write rest).length
  | .null, _, rest | .bool true, _, rest | .bool false, _, rest => by
    simp only [write, List.length_cons]
    omega
  | .natural n, _, rest => by
    have hpos := List.length_pos_iff.2 (Nat.toDigits_ne_nil (b := 10) (n := n))
    simp only [write, digits, List.length_append]
    omega
  | .string text, _, rest => by
    have := length_quoted text rest
    rw [write]
    omega
  | .array [], _, rest | .object [], _, rest => by
    simp only [write, writeItems, writeMembers, List.length_cons]
    omega
  | .array (item :: items), h, rest => by
    obtain ⟨hitem, hitems⟩ := h
    have hfirst := length_write hitem (moreItems items (']' :: rest))
    have hmore := length_moreItems hitems (']' :: rest)
    rw [write, writeItems_cons]
    simp only [List.length_cons] at hmore ⊢
    omega
  | .object ((key, value) :: members), h, rest => by
    obtain ⟨hvalue, hmembers⟩ := h
    have hkey := length_quoted key (':' :: value.write (moreMembers members ('}' :: rest)))
    have hfirst := length_write hvalue (moreMembers members ('}' :: rest))
    have hmore := length_moreMembers hmembers ('}' :: rest)
    rw [write, writeMembers_cons]
    simp only [List.length_cons] at hkey hmore ⊢
    omega

theorem length_moreItems : ∀ {items : List Json}, PlainItems items → ∀ rest,
    rest.length ≤ (moreItems items rest).length
  | [], _, _ => Nat.le_refl _
  | item :: items, h, rest => by
    have hitem := length_write h.1 (moreItems items rest)
    have hmore := length_moreItems h.2 rest
    simp only [moreItems, List.length_cons]
    omega

theorem length_moreMembers : ∀ {members : List (String × Json)}, PlainMembers members → ∀ rest,
    rest.length ≤ (moreMembers members rest).length
  | [], _, _ => Nat.le_refl _
  | (key, value) :: members, h, rest => by
    have hkey := length_quoted key (':' :: value.write (moreMembers members rest))
    have hvalue := length_write h.1 (moreMembers members rest)
    have hmore := length_moreMembers h.2 rest
    simp only [moreMembers, List.length_cons] at hkey ⊢
    omega

end

/-- What a text of a value begins with: no blank, and nothing that closes a list. -/
def Opens (cs : List Char) : Prop :=
  ∃ c, cs.head? = some c ∧ isSpace c = false ∧ c ≠ ']'

theorem isSpace_of_isDigit {c : Char} (h : c.isDigit = true) : isSpace c = false := by
  simp only [isSpace, Bool.or_eq_false_iff, beq_eq_false_iff_ne]
  refine ⟨⟨⟨?_, ?_⟩, ?_⟩, ?_⟩
  all_goals
    rintro rfl
    cases h

theorem skipSpace_cons {c : Char} (h : isSpace c = false) (gs : List Glyph) :
    skipSpace (.char c :: gs) = .char c :: gs := by
  simp only [skipSpace, h, Bool.false_eq_true, if_false]

theorem value_digit {c : Char} (h : c.isDigit = true) (fuel : Nat) (gs : List Glyph) :
    value (fuel + 1) (.char c :: gs) = number false (.char c :: gs) := by
  rw [value, skipSpace_cons (isSpace_of_isDigit h)]
  split
  case h_9 heq =>
    cases heq
    rw [if_pos h]
  all_goals
    next heq => cases heq <;> cases h

theorem value_array {fuel : Nat} {gs : List Glyph} {is : List Draft} {after : Option (List Glyph)}
    (h : items fuel true gs = ((is, none), after)) :
    value (fuel + 1) (.char '[' :: gs) = (.array is none, after) := by
  rw [value]
  simp only [skipSpace_cons (by decide : isSpace '[' = false), h]

theorem value_object {fuel : Nat} {gs : List Glyph} {ms : List (Option String × Draft)}
    {after : Option (List Glyph)} (h : members fuel true gs = ((ms, none), after)) :
    value (fuel + 1) (.char '{' :: gs) = (.object ms none, after) := by
  rw [value]
  simp only [skipSpace_cons (by decide : isSpace '{' = false), h]

theorem value_quoted (s : String) (fuel : Nat) (rest : List Char) :
    value (fuel + 1) ((quoted s rest).map .char) = (.string s, some (rest.map .char)) := by
  have htext := quotedText_escaped s (rest.map .char)
  rw [value, quoted, List.cons_append, List.map_cons, List.map_append, List.map_cons,
    skipSpace_cons (by decide)]
  simp only [htext]

section Lists

variable {fuel : Nat}

theorem items_close (first : Bool) (gs : List Glyph) :
    items (fuel + 1) first (.char ']' :: gs) = (([], none), some gs) := by
  rw [items, skipSpace_cons (by decide)]
  rfl

theorem items_first {cs : List Char} (h : Opens cs) :
    items (fuel + 1) true (cs.map .char) = item fuel (cs.map .char) := by
  obtain ⟨c, hc, hspace, hclose⟩ := h
  obtain ⟨cs, rfl⟩ := List.head?_eq_some_iff.1 hc
  rw [items, List.map_cons, skipSpace_cons hspace]
  simp [hclose]

theorem items_comma {cs : List Char} (h : Opens cs) :
    items (fuel + 1) false ((',' :: cs).map .char) = item fuel (cs.map .char) := by
  obtain ⟨c, hc, hspace, hclose⟩ := h
  obtain ⟨cs, rfl⟩ := List.head?_eq_some_iff.1 hc
  rw [items, List.map_cons, List.map_cons, skipSpace_cons (by decide)]
  simp [skipSpace_cons hspace, hclose]

theorem item_of_value {gs after : List Glyph} {d : Draft} {ds : List Draft}
    {stop : Option (List Glyph)} (hvalue : value fuel gs = (d, some after))
    (hmore : items fuel false after = ((ds, none), stop)) :
    item (fuel + 1) gs = ((d :: ds, none), stop) := by
  simp only [item, hvalue, hmore]

theorem members_close (first : Bool) (gs : List Glyph) :
    members (fuel + 1) first (.char '}' :: gs) = (([], none), some gs) := by
  rw [members, skipSpace_cons (by decide)]
  rfl

theorem members_first (key : String) (rest : List Char) :
    members (fuel + 1) true ((quoted key rest).map .char) =
      member fuel ((quoted key rest).map .char) := by
  rw [members, quoted, List.cons_append, List.map_cons, skipSpace_cons (by decide)]
  rfl

theorem members_comma (key : String) (rest : List Char) :
    members (fuel + 1) false ((',' :: quoted key rest).map .char) =
      member fuel ((quoted key rest).map .char) := by
  rw [members, quoted, List.cons_append, List.map_cons, List.map_cons,
    skipSpace_cons (by decide)]
  simp [skipSpace_cons (by decide : isSpace '"' = false)]

theorem member_of_value {key : String} {cs : List Char} {after : List Glyph} {d : Draft}
    {ms : List (Option String × Draft)} {stop : Option (List Glyph)}
    (hvalue : value fuel (cs.map .char) = (d, some after))
    (hmore : members fuel false after = ((ms, none), stop)) :
    member (fuel + 1) ((quoted key (':' :: cs)).map .char) =
      (((some key, d) :: ms, none), stop) := by
  have htext := quotedText_escaped key ((':' :: cs).map .char)
  rw [quoted, List.cons_append, List.map_cons, List.map_append, List.map_cons, member]
  rw [List.map_cons] at htext ⊢
  simp only [htext, skipSpace_cons (by decide : isSpace ':' = false), hvalue, hmore]
  rfl

end Lists

theorem opens_write {j : Json} (h : j.Plain) (rest : List Char) : Opens (j.write rest) := by
  cases j with
  | null | string | array | object => exact ⟨_, rfl, by decide, by decide⟩
  | bool b => cases b <;> exact ⟨_, rfl, by decide, by decide⟩
  | natural n =>
    obtain ⟨d, ds, hds, hd⟩ := digits_eq_cons n
    refine ⟨d, by rw [write, hds]; rfl, isSpace_of_isDigit hd, ?_⟩
    rintro rfl
    cases hd
  | numeral text => exact h.elim

theorem closes_moreItems (items : List Json) (rest : List Char) :
    Closes (moreItems items (']' :: rest)) := by
  cases items with
  | nil => exact fun c hc => .inr (.inl (Option.some.inj hc).symm)
  | cons item items => exact fun c hc => .inl (Option.some.inj hc).symm

theorem closes_moreMembers (members : List (String × Json)) (rest : List Char) :
    Closes (moreMembers members ('}' :: rest)) := by
  cases members with
  | nil => exact fun c hc => .inr (.inr (Option.some.inj hc).symm)
  | cons member members => exact fun c hc => .inl (Option.some.inj hc).symm

mutual

/-- A reader takes the text of a value off the front, and has the value as its draft. Between two
characters it descends at most from a list to an item and from the item to a value, so that three
units of fuel for a character are enough. -/
theorem value_write : ∀ {j : Json}, j.Plain → ∀ {rest : List Char}, Closes rest →
    ∀ fuel, 3 * (j.write rest).length < fuel →
      value fuel ((j.write rest).map .char) = (j.draft, some (rest.map .char))
  | _, _, _, _, 0, hfuel => absurd hfuel (Nat.not_lt_zero _)
  | .null, _, _, _, fuel + 1, _ => rfl
  | .bool true, _, _, _, fuel + 1, _ => rfl
  | .bool false, _, _, _, fuel + 1, _ => rfl
  | .natural n, h, rest, hrest, fuel + 1, _ => by
    have hnumber := number_digits h hrest
    obtain ⟨d, ds, hds, hd⟩ := digits_eq_cons n
    rw [write]
    rw [hds] at hnumber ⊢
    exact (value_digit hd fuel _).trans hnumber
  | .string s, _, rest, _, fuel + 1, _ => value_quoted s fuel rest
  | .array [], _, rest, _, fuel + 2, _ => value_array (items_close true (rest.map .char))
  | .array (item :: items), h, rest, hrest, fuel + 1, hfuel => by
    obtain ⟨hitem, hitems⟩ := h
    rw [write, writeItems_cons] at hfuel ⊢
    have hlength := length_write hitem (moreItems items (']' :: rest))
    simp only [List.length_cons] at hfuel
    obtain ⟨fuel, rfl⟩ : ∃ n, fuel = n + 2 := ⟨fuel - 2, by omega⟩
    have hfirst := value_write hitem (closes_moreItems items rest) fuel (by omega)
    have hmore := items_write hitems rest fuel (by omega)
    exact value_array ((items_first (opens_write hitem _)).trans (item_of_value hfirst hmore))
  | .object [], _, rest, _, fuel + 2, _ => value_object (members_close true (rest.map .char))
  | .object ((key, value) :: members), h, rest, hrest, fuel + 1, hfuel => by
    obtain ⟨hvalue, hmembers⟩ := h
    rw [write, writeMembers_cons] at hfuel ⊢
    have hkey := length_quoted key (':' :: value.write (moreMembers members ('}' :: rest)))
    have hlength := length_write hvalue (moreMembers members ('}' :: rest))
    simp only [List.length_cons] at hfuel hkey
    obtain ⟨fuel, rfl⟩ : ∃ n, fuel = n + 2 := ⟨fuel - 2, by omega⟩
    have hfirst := value_write hvalue (closes_moreMembers members rest) fuel (by omega)
    have hmore := members_write hmembers rest fuel (by omega)
    exact value_object ((members_first key _).trans (member_of_value hfirst hmore))

theorem items_write : ∀ {is : List Json}, PlainItems is → ∀ rest fuel,
    3 * (moreItems is (']' :: rest)).length ≤ fuel →
      items fuel false ((moreItems is (']' :: rest)).map .char) =
        ((draftItems is, none), some (rest.map .char))
  | [], _, rest, fuel, hfuel => by
    obtain ⟨fuel, rfl⟩ : ∃ n, fuel = n + 1 := ⟨fuel - 1, by
      simp only [moreItems, List.length_cons] at hfuel
      omega⟩
    exact items_close false (rest.map .char)
  | item :: items, h, rest, fuel, hfuel => by
    obtain ⟨hitem, hitems⟩ := h
    have hlength := length_write hitem (moreItems items (']' :: rest))
    simp only [moreItems, List.length_cons] at hfuel
    obtain ⟨fuel, rfl⟩ : ∃ n, fuel = n + 2 := ⟨fuel - 2, by omega⟩
    have hfirst := value_write hitem (closes_moreItems items rest) fuel (by omega)
    have hmore := items_write hitems rest fuel (by omega)
    exact (items_comma (opens_write hitem _)).trans (item_of_value hfirst hmore)

theorem members_write : ∀ {ms : List (String × Json)}, PlainMembers ms →
    ∀ rest fuel, 3 * (moreMembers ms ('}' :: rest)).length ≤ fuel →
      members fuel false ((moreMembers ms ('}' :: rest)).map .char) =
        ((draftMembers ms, none), some (rest.map .char))
  | [], _, rest, fuel, hfuel => by
    obtain ⟨fuel, rfl⟩ : ∃ n, fuel = n + 1 := ⟨fuel - 1, by
      simp only [moreMembers, List.length_cons] at hfuel
      omega⟩
    exact members_close false (rest.map .char)
  | (key, value) :: members, h, rest, fuel, hfuel => by
    obtain ⟨hvalue, hmembers⟩ := h
    have hkey := length_quoted key (':' :: value.write (moreMembers members ('}' :: rest)))
    have hlength := length_write hvalue (moreMembers members ('}' :: rest))
    simp only [moreMembers, List.length_cons] at hfuel hkey
    obtain ⟨fuel, rfl⟩ : ∃ n, fuel = n + 2 := ⟨fuel - 2, by omega⟩
    have hfirst := value_write hvalue (closes_moreMembers members rest) fuel (by omega)
    have hmore := members_write hmembers rest fuel (by omega)
    exact (members_comma key _).trans (member_of_value hfirst hmore)

end

/-- A text that was written is read as the value, and nothing follows it. -/
theorem document_write {j : Json} (h : j.Plain) :
    document ((j.write []).map .char) = ⟨j.draft, false⟩ := by
  have hcloses : Closes [] := fun c hc => nomatch hc
  have hvalue := value_write h hcloses (3 * (j.write []).length + 3) (by omega)
  simp only [document, List.length_map, hvalue]
  rfl

theorem documentOf_text {j : Json} (h : j.Plain) : documentOf j.text = ⟨j.draft, false⟩ := by
  rw [documentOf, text, String.toList_ofList, document_write h]

theorem document_octets {j : Json} (h : j.Plain) :
    document (glyphs j.text.toUTF8.data.toList) = ⟨j.draft, false⟩ := by
  rw [← utf8_toList, glyphs_utf8, text, String.toList_ofList, document_write h]

end Json

end AccountGroups
