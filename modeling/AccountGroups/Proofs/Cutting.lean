import AccountGroups.Proofs.Handles
import AccountGroups.Proofs.Prefixes
import Mathlib.Data.List.Chain

/-!
# Cuts of a text

Where the tokens of a text stand, told by its octets alone: which octets a token takes, what stands
between tokens, and where a bareword ends. A text has at most one such cut, and scanning finds it.
So lexemes that are written one after another, with gaps of any length between them, are read back.
-/

namespace AccountGroups

namespace Text

/-- The octets of characters in UTF-8. -/
def utf8 (cs : List Char) : List UInt8 := cs.flatMap String.utf8EncodeChar

@[simp] theorem utf8_nil : utf8 [] = [] := rfl

@[simp] theorem utf8_cons (c : Char) (cs : List Char) :
    utf8 (c :: cs) = String.utf8EncodeChar c ++ utf8 cs := rfl

theorem utf8_append (cs ds : List Char) : utf8 (cs ++ ds) = utf8 cs ++ utf8 ds :=
  List.flatMap_append

theorem utf8_toList (s : String) : utf8 s.toList = s.toUTF8.data.toList := by
  rw [String.toUTF8_eq_toByteArray, ← String.utf8Encode_toList, List.utf8Encode,
    List.toList_data_toByteArray]
  rfl

theorem length_utf8 (cs : List Char) : (utf8 cs).length = Token.octets cs := by
  induction cs with
  | nil => rfl
  | cons c cs ih => rw [utf8_cons, List.length_append, ih, String.length_utf8EncodeChar]; rfl

theorem utf8_eq_nil {cs : List Char} (h : utf8 cs = []) : cs = [] := by
  cases cs with
  | nil => rfl
  | cons c cs => exact absurd (List.append_eq_nil_iff.1 h).1 String.utf8EncodeChar_ne_nil

theorem head?_utf8_cons (c : Char) (cs : List Char) :
    (utf8 (c :: cs)).head? = (String.utf8EncodeChar c).head? := by
  rw [utf8_cons, List.head?_append, Option.or_of_isSome]
  simp [String.utf8EncodeChar_ne_nil]

/-- Characters are read from their octets in one way. -/
theorem prefix_of_utf8 {cs ds : List Char} (h : utf8 cs <+: utf8 ds) : cs <+: ds := by
  obtain ⟨bs, hbs⟩ := h
  refine List.isPrefix_of_utf8Encode_append_eq_utf8Encode bs.toByteArray ?_
  rw [List.utf8Encode, List.utf8Encode, ← List.toByteArray_append]
  exact congrArg List.toByteArray hbs

theorem toNat_ofUInt8 (b : UInt8) : (Char.ofUInt8 b).toNat = b.toNat := UInt8.toNat_toUInt32 b

theorem utf8EncodeChar_of_ascii {c : Char} (h : c.toNat < 0x80) :
    ∃ b, String.utf8EncodeChar c = [b] ∧ Char.ofUInt8 b = c := by
  have hc : c.val.toNat ≤ 127 := Nat.le_of_lt_succ h
  refine ⟨UInt8.ofNat c.toNat, by simp only [String.utf8EncodeChar, hc, if_true]; rfl, ?_⟩
  have hsize : c.toNat < UInt8.size := Nat.lt_trans h (by decide)
  rw [← Char.toNat_inj, toNat_ofUInt8, UInt8.toNat_ofNat_of_lt' hsize]

theorem le_head_utf8 {c : Char} {b : UInt8} (h : (String.utf8EncodeChar c).head? = some b)
    (hc : 0x80 ≤ c.toNat) : 0x80 ≤ b.toNat := by
  have hlarge : ¬ c.val.toNat ≤ 127 := Nat.not_le_of_lt hc
  simp only [String.utf8EncodeChar, hlarge, if_false] at h
  split at h
  · obtain rfl := Option.some.inj h
    simp
    omega
  · split at h
    all_goals
      obtain rfl := Option.some.inj h
      simp
      omega

/-- An octet below `0x80` is a character of its own. -/
theorem eq_of_head_utf8 {c : Char} {b : UInt8} (h : (String.utf8EncodeChar c).head? = some b)
    (hb : b.toNat < 0x80) : c = Char.ofUInt8 b := by
  have hc : c.toNat < 0x80 := Nat.lt_of_not_le fun hc => Nat.not_lt.2 (le_head_utf8 h hc) hb
  obtain ⟨d, hd, hchar⟩ := utf8EncodeChar_of_ascii hc
  rw [hd] at h
  cases h
  exact hchar.symm

end Text

open Text

/-- A lexeme that a text can spell. -/
def Lexeme.WellFormed : Lexeme → Prop
  | bareword word => Token.IsBareword word
  | file path => '>' ∉ path.toList
  | endOfInput => False
  | _ => True

namespace Token

/-- The position of the first octet behind a token. -/
def stop (t : Token) : Nat := t.position + t.lexeme.spelling.utf8ByteSize

def IsGapOctet (b : UInt8) : Prop := b = 0x20 ∨ b = 0x09 ∨ b = 0x0D ∨ b = 0x0A

def IsWordOctet (b : UInt8) : Prop := isWordChar (Char.ofUInt8 b) = true

/-- From the position `p` on, the octets `bs` are cut into the tokens `ts`: the octets of each token
spell its lexeme, no octet belongs to two tokens, and those that belong to none are gaps. -/
structure Cut (bs : List UInt8) (p : Nat) (ts : List Token) : Prop where
  from_le : ∀ t ∈ ts, p ≤ t.position
  increasing : ts.Pairwise fun t u => t.position < u.position
  apart : ts.Pairwise fun t u => t.stop ≤ u.position
  wellFormed : ∀ t ∈ ts, t.lexeme.WellFormed
  spelled : ∀ t ∈ ts, t.lexeme.spelling.toUTF8.data.toList <+: bs.drop t.position
  gaps : ∀ i b, p ≤ i → bs[i]? = some b → (∀ t ∈ ts, i < t.position ∨ t.stop ≤ i) → IsGapOctet b
  longest : ∀ t ∈ ts, ∀ word, t.lexeme = .bareword word →
    ∀ b, bs[t.stop]? = some b → ¬ IsWordOctet b

theorem isGap_iff {c : Char} :
    isGap c = true ↔ ∃ b, String.utf8EncodeChar c = [b] ∧ IsGapOctet b := by
  constructor
  · intro h
    rcases cases_of_isGap h with rfl | rfl | rfl | rfl
    · exact ⟨0x20, rfl, .inl rfl⟩
    · exact ⟨0x09, rfl, .inr (.inl rfl)⟩
    · exact ⟨0x0D, rfl, .inr (.inr (.inl rfl))⟩
    · exact ⟨0x0A, rfl, .inr (.inr (.inr rfl))⟩
  · rintro ⟨b, hc, hb⟩
    have hhead : (String.utf8EncodeChar c).head? = some b := by rw [hc]; rfl
    rcases hb with rfl | rfl | rfl | rfl
    all_goals
      rw [eq_of_head_utf8 hhead (by decide)]
      rfl

theorem isGap_of_utf8 {c : Char} {cs : List Char} {b : UInt8} {rest : List UInt8}
    (h : utf8 (c :: cs) = b :: rest) (hb : IsGapOctet b) :
    isGap c = true ∧ c.utf8Size = 1 ∧ utf8 cs = rest := by
  have hhead : (String.utf8EncodeChar c).head? = some b := by
    rw [← head?_utf8_cons c cs, h]
    rfl
  rcases hb with rfl | rfl | rfl | rfl
  all_goals
    obtain rfl := eq_of_head_utf8 hhead (by decide)
    exact ⟨rfl, rfl, (List.cons.inj h).2⟩

/-- A bareword ends before a text when it ends before the first octet of it. -/
theorem endsWord_iff {cs : List Char} :
    EndsWord cs ↔ ∀ b, (utf8 cs).head? = some b → ¬ IsWordOctet b := by
  cases cs with
  | nil => simp
  | cons c cs =>
    rw [endsWord_cons, head?_utf8_cons]
    constructor
    · intro hc b hb hword
      have hascii : b.toNat < 0x80 := by
        rw [← toNat_ofUInt8]
        exact toNat_of_isWordChar hword
      rw [IsWordOctet, ← eq_of_head_utf8 hb hascii, hc] at hword
      cases hword
    · intro h
      rw [← Bool.not_eq_true]
      intro hc
      obtain ⟨b, hb, hchar⟩ := utf8EncodeChar_of_ascii (toNat_of_isWordChar hc)
      refine h b (by rw [hb]; rfl) ?_
      rwa [IsWordOctet, hchar]

theorem Spelled.lexeme {p : Nat} {l : Lexeme} {cs : List Char} {ts : List Token}
    (hl : l.WellFormed) (hcs : ∀ word, l = .bareword word → EndsWord cs)
    (rest : Spelled (p + octets l.spelling.toList) cs ts) :
    Spelled p (l.spelling.toList ++ cs) (⟨l, p⟩ :: ts) := by
  cases l with
  | bareword word =>
    have hne : word.toList ≠ [] := by simpa using hl.1
    simpa [Lexeme.spelling, Lexeme.text] using Spelled.word hne hl.2 (hcs word rfl) rest
  | file path =>
    have hrest : Spelled (p + octets ('<' :: path.toList ++ ['>'])) cs ts := by
      simpa [Lexeme.spelling] using rest
    simpa [Lexeme.spelling] using Spelled.file hl hrest
  | endOfInput => exact hl.elim
  | dot | slash | ampersand | bar | tilde | openParen | closeParen | openBrace | closeBrace
    | comma => exact .mark rfl rest

theorem wellFormed_of_mark? {c : Char} {l : Lexeme} (h : mark? c = some l) : l.WellFormed := by
  unfold mark? at h
  split at h <;> cases h <;> trivial

theorem ne_bareword_of_mark? {c : Char} {l : Lexeme} (h : mark? c = some l) (word : String) :
    l ≠ .bareword word := by
  rintro rfl
  unfold mark? at h
  split at h <;> cases h

/-- A spelling is a gap or a lexeme in front of a spelling. -/
theorem Spelled.induct {motive : ∀ p cs ts, Spelled p cs ts → Prop}
    (nil : ∀ p, motive p [] [] .nil)
    (gap : ∀ p c cs ts (hc : isGap c = true) (rest : Spelled (p + c.utf8Size) cs ts),
      motive _ cs ts rest → motive p (c :: cs) ts (.gap hc rest))
    (lexeme : ∀ p l cs ts (hl : l.WellFormed) (hcs : ∀ word, l = .bareword word → EndsWord cs)
      (rest : Spelled (p + octets l.spelling.toList) cs ts), motive _ cs ts rest →
      motive p (l.spelling.toList ++ cs) (⟨l, p⟩ :: ts) (.lexeme hl hcs rest))
    {p : Nat} {cs : List Char} {ts : List Token} (h : Spelled p cs ts) : motive p cs ts h := by
  induction h with
  | nil => exact nil _
  | gap hc rest ih => exact gap _ _ _ _ hc rest ih
  | @mark p c l cs ts hc rest ih =>
    have hspelling := toList_spelling_of_mark? hc
    have h := lexeme p l cs ts (wellFormed_of_mark? hc)
      (fun word hl => (ne_bareword_of_mark? hc word hl).elim)
    simp only [hspelling] at h
    exact h rest ih
  | @word p w cs ts ne hw hcs rest ih =>
    have h := lexeme p (.bareword (String.ofList w)) cs ts
    simp only [Lexeme.WellFormed, Lexeme.spelling, Lexeme.text, String.toList_ofList] at h
    exact h ⟨by simpa [String.ext_iff] using ne, by simpa using hw⟩ (fun _ _ => hcs) rest ih
  | @file p path cs ts hpath rest ih =>
    have h := lexeme p (.file (String.ofList path)) cs ts
    simp only [Lexeme.WellFormed, Lexeme.spelling, String.toList_append, String.toList_ofList,
      List.append_assoc] at h
    exact h hpath (by simp) rest ih

theorem size_spelling_pos {l : Lexeme} (h : l.WellFormed) : 0 < l.spelling.utf8ByteSize := by
  rw [← octets_toList, ← length_utf8, List.length_pos_iff]
  intro hnil
  have hempty := utf8_eq_nil hnil
  cases l with
  | bareword word => exact h.1 (by simpa [Lexeme.spelling, Lexeme.text] using hempty)
  | file path => simp [Lexeme.spelling] at hempty
  | endOfInput => exact h
  | dot | slash | ampersand | bar | tilde | openParen | closeParen | openBrace | closeBrace
    | comma => cases hempty

theorem length_spelling (l : Lexeme) :
    l.spelling.toUTF8.data.toList.length = l.spelling.utf8ByteSize := by
  rw [← utf8_toList, length_utf8, octets_toList]

namespace Cut

variable {bs rest : List UInt8} {p : Nat} {ts : List Token}

theorem nil (h : bs.drop p = []) : Cut bs p [] where
  from_le := by simp
  increasing := .nil
  apart := .nil
  wellFormed := by simp
  spelled := by simp
  gaps i b hi hb _ := by
    have hlen : bs.length ≤ p := List.drop_eq_nil_iff.1 h
    rw [List.getElem?_eq_none (Nat.le_trans hlen hi)] at hb
    cases hb
  longest := by simp

theorem gap {b : UInt8} (h : bs.drop p = b :: rest) (hb : IsGapOctet b) (hts : Cut bs (p + 1) ts) :
    Cut bs p ts where
  from_le t ht := Nat.le_of_succ_le (hts.from_le t ht)
  increasing := hts.increasing
  apart := hts.apart
  wellFormed := hts.wellFormed
  spelled := hts.spelled
  gaps i c hi hc hout := by
    rcases Nat.eq_or_lt_of_le hi with rfl | hi
    · have hbs : bs[p]? = some b := by rw [← List.head?_drop, h]; rfl
      cases hbs.symm.trans hc
      exact hb
    · exact hts.gaps i c hi hc hout
  longest := hts.longest

theorem lexeme {l : Lexeme} (h : bs.drop p = l.spelling.toUTF8.data.toList ++ rest)
    (hl : l.WellFormed)
    (hrest : ∀ word, l = .bareword word → ∀ b, rest.head? = some b → ¬ IsWordOctet b)
    (hts : Cut bs (p + l.spelling.utf8ByteSize) ts) : Cut bs p (⟨l, p⟩ :: ts) where
  from_le := by
    refine List.forall_mem_cons.2 ⟨Nat.le_refl p, fun t ht => ?_⟩
    exact Nat.le_trans (Nat.le_add_right ..) (hts.from_le t ht)
  increasing := by
    refine List.pairwise_cons.2 ⟨fun t ht => ?_, hts.increasing⟩
    exact Nat.lt_of_lt_of_le (Nat.lt_add_of_pos_right (size_spelling_pos hl)) (hts.from_le t ht)
  apart := List.pairwise_cons.2 ⟨hts.from_le, hts.apart⟩
  wellFormed := List.forall_mem_cons.2 ⟨hl, hts.wellFormed⟩
  spelled := List.forall_mem_cons.2 ⟨⟨rest, h.symm⟩, hts.spelled⟩
  gaps i b hi hb hout := by
    obtain ⟨hfirst, hothers⟩ := List.forall_mem_cons.1 hout
    exact hts.gaps i b (hfirst.resolve_left (Nat.not_lt.2 hi)) hb hothers
  longest := by
    refine List.forall_mem_cons.2 ⟨fun word hword b hb => ?_, hts.longest⟩
    refine hrest word hword b ?_
    rw [stop, ← length_spelling, ← List.head?_drop, ← List.drop_drop, h, List.drop_left] at hb
    exact hb

theorem mono {q : Nat} (h : Cut bs p ts) (hq : p ≤ q) (hts : ∀ t ∈ ts, q ≤ t.position) :
    Cut bs q ts :=
  { h with
    from_le := hts
    gaps := fun i b hi => h.gaps i b (Nat.le_trans hq hi) }

theorem tail {t : Token} (h : Cut bs p (t :: ts)) : Cut bs t.stop ts where
  from_le := (List.pairwise_cons.1 h.apart).1
  increasing := (List.pairwise_cons.1 h.increasing).2
  apart := (List.pairwise_cons.1 h.apart).2
  wellFormed := (List.forall_mem_cons.1 h.wellFormed).2
  spelled := (List.forall_mem_cons.1 h.spelled).2
  gaps i b hi hb hout := by
    have hp : p ≤ t.stop := Nat.le_trans (h.from_le t List.mem_cons_self) (Nat.le_add_right ..)
    exact h.gaps i b (Nat.le_trans hp hi) hb (List.forall_mem_cons.2 ⟨.inr hi, hout⟩)
  longest := (List.forall_mem_cons.1 h.longest).2

/-- What a cut begins with: the end of the text, a gap or a lexeme. -/
theorem cases (h : Cut bs p ts) :
    (bs.drop p = [] ∧ ts = []) ∨
    (∃ b rest, bs.drop p = b :: rest ∧ IsGapOctet b ∧ Cut bs (p + 1) ts) ∨
    ∃ l rest us, ts = ⟨l, p⟩ :: us ∧ l.WellFormed ∧
      bs.drop p = l.spelling.toUTF8.data.toList ++ rest ∧
      (∀ word, l = .bareword word → ∀ b, rest.head? = some b → ¬ IsWordOctet b) ∧
      Cut bs (p + l.spelling.utf8ByteSize) us := by
  by_cases hfirst : ∀ t ∈ ts, p < t.position
  · cases hdrop : bs.drop p with
    | nil =>
      refine .inl ⟨rfl, List.eq_nil_iff_forall_not_mem.2 fun t ht => ?_⟩
      have hend : bs.drop t.position = [] := by
        rw [List.drop_eq_nil_iff] at hdrop ⊢
        exact Nat.le_trans hdrop (h.from_le t ht)
      have hlen := (h.spelled t ht).length_le
      rw [hend, length_spelling] at hlen
      exact Nat.not_lt.2 hlen (size_spelling_pos (h.wellFormed t ht))
    | cons b rest =>
      refine .inr (.inl ⟨b, rest, rfl, ?_, h.mono (Nat.le_succ p) hfirst⟩)
      refine h.gaps p b (Nat.le_refl p) ?_ fun t ht => .inl (hfirst t ht)
      rw [← List.head?_drop, hdrop]
      rfl
  · cases ts with
    | nil => exact (hfirst (by simp)).elim
    | cons t us =>
      obtain rfl : p = t.position := by
        refine Nat.le_antisymm (h.from_le t List.mem_cons_self) (Nat.not_lt.1 fun hlt => hfirst ?_)
        refine List.forall_mem_cons.2 ⟨hlt, fun u hu => ?_⟩
        exact Nat.lt_trans hlt ((List.pairwise_cons.1 h.increasing).1 u hu)
      obtain ⟨rest, hrest⟩ := h.spelled t List.mem_cons_self
      refine .inr (.inr ⟨t.lexeme, rest, us, rfl, h.wellFormed t List.mem_cons_self, hrest.symm,
        fun word hword b hb => ?_, h.tail⟩)
      refine h.longest t List.mem_cons_self word hword b ?_
      rw [stop, ← length_spelling, ← List.head?_drop, ← List.drop_drop, ← hrest, List.drop_left]
      exact hb

end Cut

theorem Spelled.cut {bs : List UInt8} {p : Nat} {cs : List Char} {ts : List Token}
    (h : Spelled p cs ts) (hbs : bs.drop p = utf8 cs) : Cut bs p ts := by
  induction h using Spelled.induct with
  | nil p => exact .nil hbs
  | gap p c cs ts hc rest ih =>
    obtain ⟨b, hb, hgap⟩ := isGap_iff.1 hc
    rw [utf8_cons, hb] at hbs
    refine .gap hbs hgap ?_
    have hsize : c.utf8Size = 1 := by rw [← String.length_utf8EncodeChar, hb]; rfl
    rw [hsize] at ih
    exact ih (by rw [← List.drop_drop, hbs]; rfl)
  | lexeme p l cs ts hl hcs rest ih =>
    rw [utf8_append, utf8_toList] at hbs
    refine .lexeme hbs hl (fun word hword => endsWord_iff.1 (hcs word hword)) ?_
    rw [octets_toList] at ih
    exact ih (by rw [← length_spelling, ← List.drop_drop, hbs, List.drop_left])

theorem Cut.spells {bs : List UInt8} {p : Nat} {cs : List Char} {ts : List Token}
    (h : Cut bs p ts) (hbs : bs.drop p = utf8 cs) : Spelled p cs ts := by
  induction hn : octets cs using Nat.strongRecOn generalizing p cs ts with
  | ind n ih =>
    rcases h.cases with ⟨hend, rfl⟩ | ⟨b, rest, hdrop, hgap, hcut⟩ |
      ⟨l, rest, us, rfl, hl, hdrop, hlong, hcut⟩
    · obtain rfl := utf8_eq_nil (hbs.symm.trans hend)
      exact .nil
    · obtain ⟨c, ds, rfl⟩ : ∃ c ds, cs = c :: ds := by
        refine List.exists_cons_of_ne_nil ?_
        rintro rfl
        rw [hbs] at hdrop
        cases hdrop
      obtain ⟨hc, hsize, hds⟩ := isGap_of_utf8 (hbs.symm.trans hdrop) hgap
      refine .gap hc ?_
      rw [hsize]
      have hlt : octets ds < n := by
        rw [octets_cons] at hn
        omega
      refine ih _ hlt hcut ?_ rfl
      rw [← List.drop_drop, hdrop, hds]
      rfl
    · obtain ⟨ds, rfl⟩ : l.spelling.toList <+: cs := by
        refine prefix_of_utf8 ⟨rest, ?_⟩
        rw [utf8_toList, ← hdrop, hbs]
      rw [utf8_append, utf8_toList, hdrop] at hbs
      obtain rfl : rest = utf8 ds := List.append_cancel_left hbs
      refine .lexeme hl (fun word hword => endsWord_iff.2 (hlong word hword)) ?_
      rw [octets_toList]
      have hpos := size_spelling_pos hl
      have hlt : octets ds < n := by
        rw [octets_append, octets_toList] at hn
        omega
      refine ih _ hlt hcut ?_ rfl
      rw [← length_spelling, ← List.drop_drop, hdrop, List.drop_left]

/-- A text is cut in at most one way, into the tokens that scanning finds. -/
theorem scan_eq_ok_iff_cut {source : String} {ts : List Token} :
    scan source = .ok ts ↔ Cut source.toUTF8.data.toList 0 ts := by
  have hall : source.toUTF8.data.toList.drop 0 = utf8 source.toList := (utf8_toList source).symm
  rw [scan_eq_ok_iff_spelled]
  exact ⟨fun h => h.cut hall, fun h => h.spells hall⟩

/-- Lexemes, each with the gap in front of it, and the gap behind the last one. -/
structure Layout where
  pieces : List (String × Lexeme)
  last : String

namespace Layout

def textFrom (last : String) : List (String × Lexeme) → String
  | [] => last
  | (gap, l) :: pieces => gap ++ l.spelling ++ textFrom last pieces

def text (layout : Layout) : String := textFrom layout.last layout.pieces

/-- The tokens of pieces that are written from the position `p` on. -/
def tokensFrom (p : Nat) : List (String × Lexeme) → List Token
  | [] => []
  | (gap, l) :: pieces =>
    let start := p + gap.utf8ByteSize
    ⟨l, start⟩ :: tokensFrom (start + l.spelling.utf8ByteSize) pieces

def tokens (layout : Layout) : List Token := tokensFrom 0 layout.pieces

def IsGap (gap : String) : Prop := ∀ c ∈ gap.toList, isGap c = true

/-- Between two barewords there is a gap. -/
def Separates (a b : String × Lexeme) : Prop :=
  ∀ v w, a.2 = .bareword v → b.2 = .bareword w → b.1 ≠ ""

/-- Lexemes that can be spelled, with gaps around them, and barewords do not touch. -/
structure Readable (layout : Layout) : Prop where
  gaps : ∀ piece ∈ layout.pieces, IsGap piece.1
  lexemes : ∀ piece ∈ layout.pieces, piece.2.WellFormed
  separated : layout.pieces.IsChain Separates
  last : IsGap layout.last

end Layout

theorem Spelled.gaps {p : Nat} {gap cs : List Char} {ts : List Token}
    (hgap : ∀ c ∈ gap, isGap c = true) (h : Spelled (p + octets gap) cs ts) :
    Spelled p (gap ++ cs) ts := by
  induction gap generalizing p with
  | nil => exact h
  | cons c gap ih =>
    obtain ⟨hc, hrest⟩ := List.forall_mem_cons.1 hgap
    rw [octets_cons, ← Nat.add_assoc] at h
    exact .gap hc (ih hrest h)

theorem endsWord_of_isGap {gap cs : List Char} (hgap : ∀ c ∈ gap, isGap c = true)
    (h : gap = [] → EndsWord cs) : EndsWord (gap ++ cs) := by
  cases gap with
  | nil => exact h rfl
  | cons c gap => exact endsWord_cons.2 (not_isWordChar_of_isGap (hgap c List.mem_cons_self))

/-- Only a bareword begins with a character of a bareword. -/
theorem endsWord_spelling {l : Lexeme} (hl : l.WellFormed) (hne : ∀ word, l ≠ .bareword word)
    (cs : List Char) : EndsWord (l.spelling.toList ++ cs) := by
  cases l with
  | bareword word => exact (hne word rfl).elim
  | file path => simpa [Lexeme.spelling] using show isWordChar '<' = false by rfl
  | endOfInput => exact hl.elim
  | dot | slash | ampersand | bar | tilde | openParen | closeParen | openBrace | closeBrace
    | comma => exact endsWord_cons.2 rfl

namespace Layout

/-- Behind a bareword stands what ends it. -/
theorem endsWord_textFrom {last word : String} {gap : String} {pieces : List (String × Lexeme)}
    (hgaps : ∀ piece ∈ pieces, IsGap piece.1) (hlexemes : ∀ piece ∈ pieces, piece.2.WellFormed)
    (hsep : ((gap, .bareword word) :: pieces).IsChain Separates) (hlast : IsGap last) :
    EndsWord (textFrom last pieces).toList := by
  cases pieces with
  | nil => simpa [textFrom] using endsWord_of_isGap hlast fun _ => endsWord_nil
  | cons piece pieces =>
    obtain ⟨gap', l⟩ := piece
    have hnext := (List.isChain_cons_cons.1 hsep).1
    simp only [textFrom, String.toList_append, List.append_assoc]
    refine endsWord_of_isGap (hgaps _ List.mem_cons_self) fun hempty => ?_
    refine endsWord_spelling (hlexemes _ List.mem_cons_self) ?_ _
    rintro v rfl
    exact hnext word v rfl rfl (String.toList_inj.1 hempty)

theorem spelled_textFrom {last : String} {pieces : List (String × Lexeme)} (p : Nat)
    (hgaps : ∀ piece ∈ pieces, IsGap piece.1) (hlexemes : ∀ piece ∈ pieces, piece.2.WellFormed)
    (hsep : pieces.IsChain Separates) (hlast : IsGap last) :
    Spelled p (textFrom last pieces).toList (tokensFrom p pieces) := by
  induction pieces generalizing p with
  | nil => simpa [textFrom, tokensFrom] using Spelled.gaps hlast .nil
  | cons piece pieces ih =>
    obtain ⟨gap, l⟩ := piece
    obtain ⟨hgap, hgaps'⟩ := List.forall_mem_cons.1 hgaps
    obtain ⟨hl, hlexemes'⟩ := List.forall_mem_cons.1 hlexemes
    simp only [textFrom, tokensFrom, String.toList_append, List.append_assoc]
    refine .gaps hgap ?_
    rw [octets_toList]
    refine .lexeme hl ?_ ?_
    · rintro word rfl
      exact endsWord_textFrom hgaps' hlexemes' hsep hlast
    · rw [octets_toList]
      exact ih _ hgaps' hlexemes' hsep.tail

theorem Readable.scan {layout : Layout} (h : layout.Readable) :
    Token.scan layout.text = .ok layout.tokens :=
  scan_eq_ok_iff_spelled.2 (spelled_textFrom 0 h.gaps h.lexemes h.separated h.last)

theorem map_lexeme_tokensFrom (p : Nat) (pieces : List (String × Lexeme)) :
    (tokensFrom p pieces).map Token.lexeme = pieces.map Prod.snd := by
  induction pieces generalizing p with
  | nil => rfl
  | cons piece pieces ih => exact congrArg (piece.2 :: ·) (ih _)

end Layout

theorem Cut.ne_endOfInput {bs : List UInt8} {p : Nat} {ts : List Token} (h : Cut bs p ts) :
    ∀ t ∈ ts, t.lexeme ≠ .endOfInput := by
  intro t ht hend
  have hl := h.wellFormed t ht
  rw [hend] at hl
  exact hl

/-- Scanning inverts the writing of tokens. The tokens of a text are its one cut and behind it the
end of the text, a token of a kind that the cut does not have; and lexemes that are written with
gaps around them are found again, as they were and where they were written. -/
theorem stream_exactly_cuts :
    (∀ source ts, stream source = .ok ts ↔ ∃ tokens,
      ts = tokens ++ [⟨.endOfInput, source.toUTF8.size⟩] ∧
        (∀ t ∈ tokens, t.lexeme ≠ .endOfInput) ∧ Cut source.toUTF8.data.toList 0 tokens) ∧
    Lexeme.endOfInput.text = "" ∧
    (∀ layout : Layout, layout.Readable →
      layout.tokens.map Token.lexeme = layout.pieces.map Prod.snd ∧
        stream layout.text = .ok (layout.tokens ++ [endOf layout.text])) := by
  refine ⟨fun source ts => ⟨fun h => ?_, ?_⟩, rfl, fun layout h => ?_⟩
  · obtain ⟨tokens, hscan, rfl⟩ : ∃ tokens, scan source = .ok tokens ∧
        tokens ++ [endOf source] = ts := by
      cases hscan : scan source with
      | error cause => simp [stream, hscan, Except.map] at h
      | ok tokens => simpa [stream, hscan, Except.map] using h
    have hcut := scan_eq_ok_iff_cut.1 hscan
    exact ⟨tokens, rfl, hcut.ne_endOfInput, hcut⟩
  · rintro ⟨tokens, rfl, -, hcut⟩
    exact Expr.stream_eq_ok_iff.2 (scan_eq_ok_iff_cut.2 hcut)
  · exact ⟨Layout.map_lexeme_tokensFrom 0 _, Expr.stream_eq_ok_iff.2 h.scan⟩

theorem stream_exactly_cuts_spaced :
    let layout : Layout :=
      ⟨[(" ", .file "é <"), ("", .bareword "a"), ("\t\n", .bareword "b")], " "⟩
    layout.Readable ∧ stream " <é <>a\t\nb " = .ok [⟨.file "é <", 1⟩, ⟨.bareword "a", 7⟩,
      ⟨.bareword "b", 10⟩, ⟨.endOfInput, 12⟩] := by
  intro layout
  have h : layout.Readable := {
    gaps := by simp [layout, Layout.IsGap, isGap]
    lexemes := by simp [layout, Lexeme.WellFormed, IsBareword]; decide
    separated := by simp [layout, Layout.Separates]
    last := by simp [layout, Layout.IsGap, isGap] }
  exact ⟨h, (stream_exactly_cuts.2.2 layout h).2⟩

end Token

end AccountGroups
