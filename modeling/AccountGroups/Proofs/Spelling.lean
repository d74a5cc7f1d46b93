import AccountGroups.Token

/-!
# Spellings of tokens

The texts that a list of tokens can stand for, told without a scanner: barewords as long as they
can be, marks, file literals, and gaps anywhere between them. A text is cut into the tokens that
it spells and into no others.
-/

namespace AccountGroups.Token

/-- The number of octets of a text in UTF-8. -/
def octets : List Char → Nat
  | [] => 0
  | c :: cs => c.utf8Size + octets cs

@[simp] theorem octets_nil : octets [] = 0 := rfl

@[simp] theorem octets_cons (c : Char) (cs : List Char) :
    octets (c :: cs) = c.utf8Size + octets cs := rfl

@[simp] theorem octets_append (cs ds : List Char) : octets (cs ++ ds) = octets cs + octets ds := by
  induction cs with
  | nil => simp
  | cons c cs ih => simp [ih, Nat.add_assoc]

/-- A bareword ends before this text. -/
def EndsWord (cs : List Char) : Prop := ∀ c ∈ cs.head?, isWordChar c = false

@[simp] theorem endsWord_nil : EndsWord [] := by simp [EndsWord]

@[simp] theorem endsWord_cons {c : Char} {cs : List Char} :
    EndsWord (c :: cs) ↔ isWordChar c = false := by
  simp [EndsWord]

/-- `Spelled p cs ts`: the text `cs`, whose first octet has the position `p`, spells `ts`. -/
inductive Spelled : Nat → List Char → List Token → Prop
  | nil {p} : Spelled p [] []
  | gap {p c cs ts} (hc : isGap c = true) (rest : Spelled (p + c.utf8Size) cs ts) :
      Spelled p (c :: cs) ts
  | mark {p c lexeme cs ts} (hc : mark? c = some lexeme) (rest : Spelled (p + c.utf8Size) cs ts) :
      Spelled p (c :: cs) (⟨lexeme, p⟩ :: ts)
  | word {p w cs ts} (ne : w ≠ []) (hw : ∀ c ∈ w, isWordChar c = true) (hcs : EndsWord cs)
      (rest : Spelled (p + octets w) cs ts) :
      Spelled p (w ++ cs) (⟨.bareword (String.ofList w), p⟩ :: ts)
  | file {p path cs ts} (hpath : '>' ∉ path)
      (rest : Spelled (p + octets ('<' :: path ++ ['>'])) cs ts) :
      Spelled p ('<' :: path ++ '>' :: cs) (⟨.file (String.ofList path), p⟩ :: ts)

theorem not_isWordChar_of_mark? {c : Char} {lexeme : Lexeme} (h : mark? c = some lexeme) :
    isWordChar c = false := by
  unfold mark? at h
  split at h <;> first | rfl | contradiction

theorem ne_open_of_mark? {c : Char} {lexeme : Lexeme} (h : mark? c = some lexeme) : c ≠ '<' := by
  rintro rfl
  contradiction

theorem cases_of_isGap {c : Char} (h : isGap c = true) :
    c = ' ' ∨ c = '\t' ∨ c = '\r' ∨ c = '\n' := by
  simpa [isGap, or_assoc] using h

theorem not_isWordChar_of_isGap {c : Char} (h : isGap c = true) : isWordChar c = false := by
  rcases cases_of_isGap h with rfl | rfl | rfl | rfl <;> rfl

theorem mark?_of_isGap {c : Char} (h : isGap c = true) : mark? c = none := by
  rcases cases_of_isGap h with rfl | rfl | rfl | rfl <;> rfl

theorem ne_open_of_isGap {c : Char} (h : isGap c = true) : c ≠ '<' := by
  rintro rfl
  contradiction

theorem enter_word {p : Nat} {c : Char} (h : isWordChar c = true) :
    enter p c = .ok ([], .word p [c]) := by
  simp [enter, h]

theorem enter_open (p : Nat) : enter p '<' = .ok ([], .path p []) := rfl

theorem enter_mark {p : Nat} {c : Char} {lexeme : Lexeme} (h : mark? c = some lexeme) :
    enter p c = .ok ([⟨lexeme, p⟩], .between) := by
  simp [enter, not_isWordChar_of_mark? h, ne_open_of_mark? h, h]

theorem enter_gap {p : Nat} {c : Char} (h : isGap c = true) : enter p c = .ok ([], .between) := by
  simp [enter, not_isWordChar_of_isGap h, ne_open_of_isGap h, mark?_of_isGap h, h]

/-- What a character that enters a token or a gap leads to. -/
theorem enter_cases {p : Nat} {c : Char} {ts : List Token} {next : Mode}
    (h : enter p c = .ok (ts, next)) :
    (isWordChar c = true ∧ ts = [] ∧ next = .word p [c]) ∨
    (c = '<' ∧ ts = [] ∧ next = .path p []) ∨
    (∃ lexeme, mark? c = some lexeme ∧ ts = [⟨lexeme, p⟩] ∧ next = .between) ∨
    (isGap c = true ∧ ts = [] ∧ next = .between) := by
  by_cases hw : isWordChar c = true
  · rw [enter_word hw] at h
    cases h
    exact .inl ⟨hw, rfl, rfl⟩
  by_cases ho : c = '<'
  · subst ho
    cases h
    exact .inr (.inl ⟨rfl, rfl, rfl⟩)
  cases hm : mark? c with
  | some lexeme =>
    rw [enter_mark hm] at h
    cases h
    exact .inr (.inr (.inl ⟨lexeme, rfl, rfl, rfl⟩))
  | none =>
    by_cases hg : isGap c = true
    · rw [enter_gap hg] at h
      cases h
      exact .inr (.inr (.inr ⟨hg, rfl, rfl⟩))
    · simp [enter, hw, ho, hm, hg] at h

theorem scanFrom_cons {mode next : Mode} {p : Nat} {c : Char} {cs : List Char} {us : List Token}
    (h : advance mode p c = .ok (us, next)) :
    scanFrom mode p (c :: cs) = (scanFrom next (p + c.utf8Size) cs).map (us ++ ·) := by
  simp only [scanFrom, h]

theorem scanFrom_enter {next : Mode} {p : Nat} {c : Char} {cs : List Char} {us : List Token}
    (h : enter p c = .ok (us, next)) :
    scanFrom .between p (c :: cs) = (scanFrom next (p + c.utf8Size) cs).map (us ++ ·) :=
  scanFrom_cons (show advance .between p c = .ok (us, next) from h)

theorem scanFrom_gap {p : Nat} {c : Char} {cs : List Char} (h : isGap c = true) :
    scanFrom .between p (c :: cs) = scanFrom .between (p + c.utf8Size) cs := by
  rw [scanFrom_enter (enter_gap h)]
  cases scanFrom .between (p + c.utf8Size) cs <;> rfl

theorem scanFrom_word_end {start p : Nat} {read cs : List Char} (h : EndsWord cs) :
    scanFrom (.word start read) p cs =
      (scanFrom .between p cs).map (wordToken start read :: ·) := by
  cases cs with
  | nil => rfl
  | cons c cs =>
    have hc : isWordChar c = false := endsWord_cons.1 h
    simp only [scanFrom, advance, hc, Bool.false_eq_true, if_false]
    cases enter p c with
    | error e => rfl
    | ok r =>
      simp only [Except.map]
      cases scanFrom r.2 (p + c.utf8Size) cs <;> rfl

theorem scanFrom_word {start p : Nat} {read w cs : List Char}
    (hw : ∀ c ∈ w, isWordChar c = true) (hcs : EndsWord cs) :
    scanFrom (.word start read) p (w ++ cs) =
      (scanFrom .between (p + octets w) cs).map (wordToken start (w.reverse ++ read) :: ·) := by
  induction w generalizing p read with
  | nil => simpa using scanFrom_word_end hcs
  | cons c w ih =>
    have hc : isWordChar c = true := hw c (by simp)
    have ha : advance (.word start read) p c = .ok ([], .word start (c :: read)) := by
      simp [advance, hc]
    rw [List.cons_append, scanFrom_cons ha, ih (fun d hd => hw d (by simp [hd]))]
    simp only [octets_cons, List.reverse_cons, List.append_assoc, List.cons_append,
      List.nil_append, Nat.add_assoc]
    cases scanFrom .between (p + (c.utf8Size + octets w)) cs <;> rfl

theorem scanFrom_path {start p : Nat} {read path cs : List Char} (hpath : '>' ∉ path) :
    scanFrom (.path start read) p (path ++ '>' :: cs) =
      (scanFrom .between (p + octets (path ++ ['>'])) cs).map
        (pathToken start (path.reverse ++ read) :: ·) := by
  induction path generalizing p read with
  | nil => rfl
  | cons c path ih =>
    have hc : c ≠ '>' := fun h => hpath (by simp [h])
    have ha : advance (.path start read) p c = .ok ([], .path start (c :: read)) := by
      simp [advance, hc]
    rw [List.cons_append, scanFrom_cons ha, ih fun h => hpath (by simp [h])]
    simp only [List.cons_append, octets_cons, List.reverse_cons, List.append_assoc,
      List.nil_append, Nat.add_assoc]
    cases scanFrom .between (p + (c.utf8Size + octets (path ++ ['>']))) cs <;> rfl

theorem EndsWord.append {cs ds : List Char} (h : EndsWord cs) (hd : EndsWord ds) :
    EndsWord (cs ++ ds) := by
  cases cs with
  | nil => exact hd
  | cons c cs => exact endsWord_cons.2 (endsWord_cons.1 h)

/-- Behind a text that spells tokens, scanning goes on as if it began there. -/
theorem Spelled.scanFrom_append {p : Nat} {cs ds : List Char} {ts : List Token}
    (h : Spelled p cs ts) (hds : EndsWord ds) :
    scanFrom .between p (cs ++ ds) = (scanFrom .between (p + octets cs) ds).map (ts ++ ·) := by
  induction h with
  | nil =>
    rw [List.nil_append, octets_nil, Nat.add_zero]
    cases scanFrom .between _ ds <;> rfl
  | gap hc rest ih => rw [List.cons_append, scanFrom_gap hc, ih, octets_cons, Nat.add_assoc]
  | mark hc rest ih =>
    rw [List.cons_append, scanFrom_enter (enter_mark hc), ih, octets_cons, Nat.add_assoc]
    cases scanFrom .between _ ds <;> rfl
  | @word p w cs ts ne hw hcs rest ih =>
    obtain ⟨c, w, rfl⟩ := List.exists_cons_of_ne_nil ne
    obtain ⟨hc, hw⟩ := List.forall_mem_cons.1 hw
    rw [List.append_assoc, List.cons_append, scanFrom_enter (enter_word hc),
      scanFrom_word hw (hcs.append hds), Nat.add_assoc, ← octets_cons, ih, octets_append,
      Nat.add_assoc]
    cases scanFrom .between _ ds <;> simp [Except.map, wordToken]
  | @file p path cs ts hpath rest ih =>
    have hall : '<' :: path ++ '>' :: cs ++ ds = '<' :: (path ++ '>' :: (cs ++ ds)) := by simp
    have hsize : octets ('<' :: path ++ '>' :: cs) = octets ('<' :: path ++ ['>']) + octets cs := by
      simp [Nat.add_assoc]
    rw [hall, hsize, scanFrom_enter (enter_open p), scanFrom_path hpath, Nat.add_assoc,
      ← octets_cons, ← List.cons_append, ih, ← Nat.add_assoc]
    cases scanFrom .between _ ds <;> simp [Except.map, pathToken]

theorem Spelled.scanFrom_eq {p : Nat} {cs : List Char} {ts : List Token} (h : Spelled p cs ts) :
    scanFrom .between p cs = .ok ts := by
  have happend := h.scanFrom_append endsWord_nil
  rw [List.append_nil] at happend
  rw [happend]
  simp [scanFrom, close, Except.map]

namespace Mode

/-- Where the text began that a mode has read, when the next character stands at `p`. -/
def start (p : Nat) : Mode → Nat
  | between => p
  | word start _ | path start _ => start

/-- The text of the token that is not yet complete. -/
def text : Mode → List Char
  | between => []
  | word _ read => read.reverse
  | path _ read => '<' :: read.reverse

/-- What a mode has read can begin a bareword or a file literal and ends before `p`. -/
def Valid (p : Nat) : Mode → Prop
  | between => True
  | word start read =>
    read ≠ [] ∧ (∀ c ∈ read, isWordChar c = true) ∧ p = start + octets read.reverse
  | path start read => '>' ∉ read ∧ p = start + octets ('<' :: read.reverse)

end Mode

theorem valid_of_enter {p : Nat} {c : Char} {us : List Token} {next : Mode}
    (h : enter p c = .ok (us, next)) : next.Valid (p + c.utf8Size) := by
  rcases enter_cases h with ⟨hc, -, rfl⟩ | ⟨rfl, -, rfl⟩ | ⟨l, -, -, rfl⟩ | ⟨-, -, rfl⟩
  · simp [Mode.Valid, hc]
  · simp [Mode.Valid]
  · trivial
  · trivial

theorem spelled_of_enter {p : Nat} {c : Char} {cs : List Char} {us vs : List Token} {next : Mode}
    (h : enter p c = .ok (us, next))
    (hv : Spelled (next.start (p + c.utf8Size)) (next.text ++ cs) vs) :
    Spelled p (c :: cs) (us ++ vs) := by
  rcases enter_cases h with ⟨-, rfl, rfl⟩ | ⟨rfl, rfl, rfl⟩ | ⟨l, hl, rfl, rfl⟩ | ⟨hc, rfl, rfl⟩
  · exact hv
  · exact hv
  · exact .mark hl hv
  · exact .gap hc hv

theorem Mode.valid_word {p start : Nat} {c : Char} {read : List Char}
    (hm : (word start read).Valid p) (hc : isWordChar c = true) :
    (word start (c :: read)).Valid (p + c.utf8Size) := by
  obtain ⟨-, hw, rfl⟩ := hm
  refine ⟨by simp, ?_, by simp [Nat.add_assoc]⟩
  intro d hd
  rcases List.mem_cons.1 hd with rfl | hd
  · exact hc
  · exact hw d hd

theorem Mode.valid_path {p start : Nat} {c : Char} {read : List Char}
    (hm : (path start read).Valid p) (hc : c ≠ '>') :
    (path start (c :: read)).Valid (p + c.utf8Size) := by
  obtain ⟨hp, rfl⟩ := hm
  refine ⟨?_, by simp [Nat.add_assoc]⟩
  simpa [eq_comm, hp] using hc

theorem spelled_of_word {p start : Nat} {read cs : List Char} {ts : List Token}
    (hm : (Mode.word start read).Valid p) (hcs : EndsWord cs) (h : Spelled p cs ts) :
    Spelled start (read.reverse ++ cs) (wordToken start read :: ts) := by
  obtain ⟨ne, hw, rfl⟩ := hm
  exact .word (by simpa using ne) (by simpa using hw) hcs h

/-- One step of the scanner: the tokens that it completes are spelled in front of the rest. -/
theorem spelled_of_advance {mode next : Mode} {p : Nat} {c : Char} {cs : List Char}
    {us vs : List Token} (hm : mode.Valid p) (h : advance mode p c = .ok (us, next)) :
    next.Valid (p + c.utf8Size) ∧
      (Spelled (next.start (p + c.utf8Size)) (next.text ++ cs) vs →
        Spelled (mode.start p) (mode.text ++ c :: cs) (us ++ vs)) := by
  cases mode with
  | between => exact ⟨valid_of_enter h, spelled_of_enter h⟩
  | word start read =>
    by_cases hc : isWordChar c = true
    · simp only [advance, hc, if_true, Except.ok.injEq, Prod.mk.injEq] at h
      obtain ⟨rfl, rfl⟩ := h
      exact ⟨Mode.valid_word hm hc, fun hv => by simpa [Mode.start, Mode.text] using hv⟩
    · simp only [advance, hc, if_false, Bool.false_eq_true] at h
      cases he : enter p c with
      | error e => rw [he] at h; cases h
      | ok r =>
        obtain ⟨us', next'⟩ := r
        rw [he] at h
        cases h
        refine ⟨valid_of_enter he, fun hv => ?_⟩
        exact spelled_of_word hm (endsWord_cons.2 (by simpa using hc)) (spelled_of_enter he hv)
  | path start read =>
    by_cases hc : c = '>'
    · subst hc
      simp only [advance, if_true, Except.ok.injEq, Prod.mk.injEq] at h
      obtain ⟨rfl, rfl⟩ := h
      refine ⟨trivial, fun hv => ?_⟩
      obtain ⟨hp, rfl⟩ := hm
      refine .file (by simpa using hp) ?_
      simpa [Mode.start, Mode.text, Nat.add_assoc] using hv
    · simp only [advance, hc, if_false, Except.ok.injEq, Prod.mk.injEq] at h
      obtain ⟨rfl, rfl⟩ := h
      exact ⟨Mode.valid_path hm hc, fun hv => by simpa [Mode.start, Mode.text] using hv⟩

theorem spelled_of_scanFrom {mode : Mode} {p : Nat} {cs : List Char} {ts : List Token}
    (hm : mode.Valid p) (h : scanFrom mode p cs = .ok ts) :
    Spelled (mode.start p) (mode.text ++ cs) ts := by
  induction cs generalizing mode p ts with
  | nil =>
    cases mode with
    | between =>
      cases h
      exact .nil
    | word start read =>
      cases h
      exact spelled_of_word hm endsWord_nil .nil
    | path start read => cases h
  | cons c cs ih =>
    obtain ⟨us, next, ha⟩ : ∃ us next, advance mode p c = .ok (us, next) := by
      cases ha : advance mode p c with
      | error e => simp [scanFrom, ha] at h
      | ok r => exact ⟨r.1, r.2, rfl⟩
    rw [scanFrom_cons ha] at h
    obtain ⟨vs, hvs, rfl⟩ : ∃ vs, scanFrom next (p + c.utf8Size) cs = .ok vs ∧ us ++ vs = ts := by
      cases hs : scanFrom next (p + c.utf8Size) cs with
      | error e => rw [hs] at h; cases h
      | ok vs => rw [hs] at h; cases h; exact ⟨vs, rfl, rfl⟩
    obtain ⟨hnext, hspelled⟩ := spelled_of_advance hm ha
    exact hspelled (ih hnext hvs)

/-- A text is cut into the tokens that it spells. -/
theorem scan_eq_ok_iff_spelled {source : String} {ts : List Token} :
    scan source = .ok ts ↔ Spelled 0 source.toList ts := by
  have hm : Mode.between.Valid 0 := trivial
  exact ⟨fun h => spelled_of_scanFrom hm h, Spelled.scanFrom_eq⟩

def IsBareword (w : String) : Prop := w ≠ "" ∧ ∀ c ∈ w.toList, isWordChar c = true

instance (w : String) : Decidable (IsBareword w) :=
  decidable_of_decidable_of_iff (p := w ≠ "" ∧ w.toList.all isWordChar = true)
    (and_congr_right' List.all_eq_true)

theorem Spelled.isBareword {p : Nat} {cs : List Char} {ts : List Token} (h : Spelled p cs ts) :
    ∀ t ∈ ts, ∀ w, t.lexeme = .bareword w → IsBareword w := by
  induction h with
  | nil => simp
  | gap hc rest ih => exact ih
  | mark hc rest ih =>
    intro t ht w hw
    rcases List.mem_cons.1 ht with rfl | ht
    · subst hw
      unfold mark? at hc
      split at hc <;> simp at hc
    · exact ih t ht w hw
  | @word p w cs ts ne hw hcs rest ih =>
    intro t ht v hv
    rcases List.mem_cons.1 ht with rfl | ht
    · cases hv
      exact ⟨by simpa [String.ext_iff] using ne, by simpa using hw⟩
    · exact ih t ht v hv
  | file hpath rest ih =>
    intro t ht w hw
    rcases List.mem_cons.1 ht with rfl | ht
    · cases hw
    · exact ih t ht w hw

/-- Wherever it stands, the text spells tokens with these lexemes. -/
def Shows (cs : List Char) (ls : List Lexeme) : Prop :=
  ∀ p, ∃ ts, Spelled p cs ts ∧ ts.map Token.lexeme = ls

theorem Shows.nil : Shows [] [] := fun _ => ⟨[], .nil, rfl⟩

theorem Shows.gap {c : Char} {cs : List Char} {ls : List Lexeme} (hc : isGap c = true)
    (h : Shows cs ls) : Shows (c :: cs) ls := by
  intro p
  obtain ⟨ts, hts, hl⟩ := h (p + c.utf8Size)
  exact ⟨ts, .gap hc hts, hl⟩

theorem Shows.mark {c : Char} {l : Lexeme} {cs : List Char} {ls : List Lexeme}
    (hc : mark? c = some l) (h : Shows cs ls) : Shows (c :: cs) (l :: ls) := by
  intro p
  obtain ⟨ts, hts, hl⟩ := h (p + c.utf8Size)
  exact ⟨⟨l, p⟩ :: ts, .mark hc hts, by simp [hl]⟩

theorem Shows.word {w : String} {cs : List Char} {ls : List Lexeme} (hw : IsBareword w)
    (hcs : EndsWord cs) (h : Shows cs ls) : Shows (w.toList ++ cs) (.bareword w :: ls) := by
  intro p
  obtain ⟨ts, hts, hl⟩ := h (p + octets w.toList)
  refine ⟨⟨.bareword (String.ofList w.toList), p⟩ :: ts, ?_, by simp [hl]⟩
  exact .word (by simpa using hw.1) hw.2 hcs hts

theorem Shows.scan {source : String} {ls : List Lexeme} (h : Shows source.toList ls) :
    ∃ tokens, scan source = .ok tokens ∧ tokens.map Token.lexeme = ls := by
  obtain ⟨ts, hts, hl⟩ := h 0
  exact ⟨ts, scan_eq_ok_iff_spelled.2 hts, hl⟩

end AccountGroups.Token
