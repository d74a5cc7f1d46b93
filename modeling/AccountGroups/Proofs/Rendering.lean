import AccountGroups.Proofs.Handles

/-!
# Reading what was rendered

The rendering of a tree with canonical sources spells its lexemes, and these derive the tree with as
many openings around a place as rendering writes. A derivation with fewer does not exist, so the
trees that can be read are the trees that are read from their rendering.
-/

namespace AccountGroups

open Token

namespace Source

def lexemes : Source → List Lexeme
  | followers handle => [.bareword handle, .dot, .bareword "followers"]
  | following handle => [.bareword handle, .dot, .bareword "following"]
  | members owner list => [.bareword owner, .slash, .bareword list]
  | handles set => .openBrace :: Lexeme.listed set.toList ++ [.closeBrace]

end Source

namespace Expr

def enclosed (whether : Bool) (ls : List Lexeme) : List Lexeme :=
  if whether then .openParen :: ls ++ [.closeParen] else ls

def lexemes : Expr → List Lexeme
  | source s => s.lexemes
  | inter left right => left.lexemes ++ .ampersand :: enclosed right.isBinary right.lexemes
  | union left right => left.lexemes ++ .bar :: enclosed right.isBinary right.lexemes
  | compl inner => .tilde :: enclosed inner.isBinary inner.lexemes

/-- The greatest number of openings around a place of the rendering: one for each `~` and one for
each pair of parentheses. -/
def nesting : Expr → Nat
  | source _ => 0
  | inter left right | union left right => max left.nesting (right.nesting + right.isBinary.toNat)
  | compl inner => inner.nesting + inner.isBinary.toNat + 1

theorem shows_listed {words : List String} (hw : ∀ w ∈ words, IsBareword w) {cs : List Char}
    {ls : List Lexeme} (hcs : EndsWord cs) (h : Shows cs ls) :
    Shows ((", ".intercalate words).toList ++ cs) (Lexeme.listed words ++ ls) := by
  induction words with
  | nil => simpa using h
  | cons w words ih =>
    have hfirst := hw w (by simp)
    cases words with
    | nil => simpa [Lexeme.listed] using Shows.word hfirst hcs h
    | cons v words =>
      have hrest := ih fun u hu => hw u (by simp [hu])
      have hgap : Shows (' ' :: ((", ".intercalate (v :: words)).toList ++ cs))
          (Lexeme.listed (v :: words) ++ ls) := .gap rfl hrest
      have hcomma := Shows.mark (c := ',') rfl hgap
      have hall := Shows.word hfirst (endsWord_cons.2 rfl) hcomma
      simpa [Lexeme.listed, String.intercalate_cons_cons] using hall

theorem shows_source {s : Source} (hs : s.Canonical) {cs : List Char} {ls : List Lexeme}
    (hcs : EndsWord cs) (h : Shows cs ls) :
    Shows (s.render.toList ++ cs) (s.lexemes ++ ls) := by
  cases s with
  | followers handle =>
    have hw : IsBareword "followers" := ⟨by decide, by simp [isWordChar]⟩
    have hdot := Shows.mark (c := '.') rfl (Shows.word hw hcs h)
    simpa [Source.render, Source.key, Source.lexemes] using
      Shows.word hs.1 (endsWord_cons.2 rfl) hdot
  | following handle =>
    have hw : IsBareword "following" := ⟨by decide, by simp [isWordChar]⟩
    have hdot := Shows.mark (c := '.') rfl (Shows.word hw hcs h)
    simpa [Source.render, Source.key, Source.lexemes] using
      Shows.word hs.1 (endsWord_cons.2 rfl) hdot
  | members owner list =>
    have hslash := Shows.mark (c := '/') rfl (Shows.word hs.2 hcs h)
    simpa [Source.render, Source.key, Source.lexemes] using
      Shows.word hs.1.1 (endsWord_cons.2 rfl) hslash
  | handles set =>
    have hw : ∀ w ∈ set.toList, IsBareword w := fun w hw => (hs w hw).1
    have hclose := Shows.mark (c := '}') rfl h
    have hlist := shows_listed hw (endsWord_cons.2 rfl) hclose
    have hall := Shows.mark (c := '{') rfl hlist
    simpa [Source.render, HandleSet.render, HandleSet.joined, Source.lexemes] using hall

theorem shows_parenthesised {text : String} {ms : List Lexeme}
    (ht : ∀ cs ls, EndsWord cs → Shows cs ls → Shows (text.toList ++ cs) (ms ++ ls))
    (whether : Bool) {cs : List Char} {ls : List Lexeme} (hcs : EndsWord cs) (h : Shows cs ls) :
    Shows ((parenthesised whether text).toList ++ cs) (enclosed whether ms ++ ls) := by
  cases whether with
  | false => exact ht cs ls hcs h
  | true =>
    have hclose := Shows.mark (c := ')') rfl h
    have hinner := ht _ _ (endsWord_cons.2 rfl) hclose
    have hall := Shows.mark (c := '(') rfl hinner
    simpa [parenthesised, enclosed] using hall

/-- A binary rendering, from that of its operands and the mark between them. -/
theorem shows_binary {left right : List Char} {ms ns ls : List Lexeme} {cs : List Char}
    {c : Char} {l : Lexeme} (hc : mark? c = some l)
    (hl : ∀ cs ls, EndsWord cs → Shows cs ls → Shows (left ++ cs) (ms ++ ls))
    (hr : Shows (right ++ cs) (ns ++ ls)) :
    Shows (left ++ ' ' :: c :: ' ' :: (right ++ cs)) (ms ++ l :: (ns ++ ls)) :=
  hl _ _ (endsWord_cons.2 rfl) (.gap rfl (.mark hc (.gap rfl hr)))

theorem shows_render {e : Expr} (he : e.Canonical) (cs : List Char) (ls : List Lexeme)
    (hcs : EndsWord cs) (h : Shows cs ls) :
    Shows (e.render.toList ++ cs) (e.lexemes ++ ls) := by
  induction e generalizing cs ls with
  | source s => exact shows_source (canonical_source.1 he) hcs h
  | inter left right ihl ihr =>
    obtain ⟨hl, hr⟩ := canonical_inter.1 he
    have hright := shows_parenthesised (ihr hr) right.isBinary hcs h
    have hall := shows_binary (c := '&') rfl (ihl hl) hright
    simpa [render, lexemes] using hall
  | union left right ihl ihr =>
    obtain ⟨hl, hr⟩ := canonical_union.1 he
    have hright := shows_parenthesised (ihr hr) right.isBinary hcs h
    have hall := shows_binary (c := '|') rfl (ihl hl) hright
    simpa [render, lexemes] using hall
  | compl inner ih =>
    have hinner := shows_parenthesised (ih he) inner.isBinary hcs h
    have hall := Shows.mark (c := '~') rfl hinner
    simpa [render, lexemes] using hall

theorem scan_render {e : Expr} (he : e.Canonical) :
    ∃ tokens, Token.scan e.render = .ok tokens ∧ tokens.map Token.lexeme = e.lexemes := by
  have h := shows_render he [] [] endsWord_nil .nil
  rw [List.append_nil, List.append_nil] at h
  exact h.scan

theorem file_not_mem_lexemes (e : Expr) (path : String) : .file path ∉ e.lexemes := by
  induction e with
  | source s =>
    cases s with
    | followers | following | members => simp [lexemes, Source.lexemes]
    | handles set =>
      cases hset : set.toList <;> simp [lexemes, Source.lexemes, hset, Lexeme.listed]
  | inter left right ihl ihr | union left right ihl ihr =>
    cases hb : right.isBinary <;> simp [lexemes, enclosed, hb, ihl, ihr]
  | compl inner ih => cases hb : inner.isBinary <;> simp [lexemes, enclosed, hb, ih]

variable {files : Files}

theorem derives_source {s : Source} (hs : s.Canonical) :
    Derives files .primary s.lexemes (source s) 0 := by
  cases s with
  | followers handle =>
    have h : Derives files .primary [.bareword handle, .dot, .bareword "followers"]
        (source (.followersOf handle)) 0 := .followers rfl
    rwa [Source.followersOf, hs.lowercase_eq] at h
  | following handle =>
    have h : Derives files .primary [.bareword handle, .dot, .bareword "following"]
        (source (.followingOf handle)) 0 := .following rfl
    rwa [Source.followingOf, hs.lowercase_eq] at h
  | members owner list =>
    have h : Derives files .primary _ (source (.membersOf owner list)) 0 := .members
    rwa [Source.membersOf, hs.1.lowercase_eq] at h
  | handles set =>
    have h : Derives files .primary _ (source (.ofHandles set.toList)) 0 := .set set.toList
    rwa [Source.ofHandles, HandleSet.ofHandles_toList fun w hw => (hs w hw).lowercase_eq] at h

theorem derives_enclosed {e : Expr} (h : Derives files .expression e.lexemes e e.nesting)
    (hp : e.isBinary = false → Derives files .primary e.lexemes e e.nesting) :
    Derives files .primary (enclosed e.isBinary e.lexemes) e (e.nesting + e.isBinary.toNat) := by
  cases hb : e.isBinary with
  | false => exact hp hb
  | true => exact .paren h

theorem derives_lexemes {e : Expr} (he : e.Canonical) :
    Derives files .expression e.lexemes e e.nesting ∧
      (e.isBinary = false → Derives files .primary e.lexemes e e.nesting) := by
  induction e with
  | source s =>
    have h : Derives files .primary (source s).lexemes (source s) 0 :=
      derives_source (canonical_source.1 he)
    exact ⟨.operand h, fun _ => h⟩
  | inter left right ihl ihr =>
    obtain ⟨hl, hr⟩ := canonical_inter.1 he
    obtain ⟨hexpr, hprim⟩ := ihr hr
    exact ⟨.binary .inter (ihl hl).1 (derives_enclosed hexpr hprim), by simp [isBinary]⟩
  | union left right ihl ihr =>
    obtain ⟨hl, hr⟩ := canonical_union.1 he
    obtain ⟨hexpr, hprim⟩ := ihr hr
    exact ⟨.binary .union (ihl hl).1 (derives_enclosed hexpr hprim), by simp [isBinary]⟩
  | compl inner ih =>
    obtain ⟨hexpr, hprim⟩ := ih he
    have h : Derives files .primary (compl inner).lexemes (compl inner) (compl inner).nesting :=
      .tilde (derives_enclosed hexpr hprim)
    exact ⟨.operand h, fun _ => h⟩

/-- The least nesting with which a tree is written as this part. -/
def Part.nesting (e : Expr) : Part → Nat
  | primary => e.nesting + e.isBinary.toNat
  | expression => e.nesting

theorem Derives.nesting_le {part : Part} {ls : List Lexeme} {e : Expr} {d : Nat}
    (h : Derives files part ls e d) : part.nesting e ≤ d := by
  induction h with
  | followers | following | members | set | file => exact Nat.le_refl _
  | tilde inner ih => exact Nat.succ_le_succ ih
  | @paren ls e d inner ih =>
    have hb : e.isBinary.toNat ≤ 1 := Bool.toNat_le _
    simp only [Part.nesting] at ih ⊢
    omega
  | operand inner ih =>
    simp only [Part.nesting] at ih ⊢
    omega
  | binary operator left right ihl ihr =>
    cases operator
    all_goals
      simp only [Part.nesting, Operator.apply, Expr.nesting] at ihl ihr ⊢
      omega

theorem nesting_le_of_read {source : String} {e : Expr} (h : read files source = .ok e) :
    e.nesting ≤ maxNesting := by
  obtain ⟨tokens, d, -, hd, hm⟩ := read_eq_ok_iff.1 h
  exact Nat.le_trans hd.nesting_le hm

theorem read_render {e : Expr} (he : e.Canonical) (hn : e.nesting ≤ maxNesting) :
    read files e.render = .ok e := by
  obtain ⟨tokens, ht, hl⟩ := scan_render he
  refine read_eq_ok_iff.2 ⟨tokens, e.nesting, ht, ?_, hn⟩
  rw [hl]
  exact (derives_lexemes he).1

/-- A tree is read from its rendering exactly when it is read from some text, and exactly when its
sources are canonical and rendering nests at most `maxNesting` openings. The rendering of a tree
that was read has no file literal, and its openings are nested no deeper than those of the text. -/
theorem read_render_iff (files : Files) (e : Expr) :
    (read files e.render = .ok e ↔ ∃ files source, read files source = .ok e) ∧
    (read files e.render = .ok e ↔ e.Canonical ∧ e.nesting ≤ maxNesting) ∧
    (∀ files source, read files source = .ok e →
      (∀ others, read others e.render = .ok e) ∧
      ∃ tokens d rendered, Token.scan source = .ok tokens ∧
        Derives files .expression (tokens.map Token.lexeme) e d ∧
        Token.scan e.render = .ok rendered ∧
        (∀ t ∈ rendered, ∀ path, t.lexeme ≠ .file path) ∧
        (∀ others, Derives others .expression (rendered.map Token.lexeme) e e.nesting) ∧
        e.nesting ≤ d) := by
  have hiff : read files e.render = .ok e ↔ e.Canonical ∧ e.nesting ≤ maxNesting :=
    ⟨fun h => ⟨canonical_of_read h, nesting_le_of_read h⟩, fun h => read_render h.1 h.2⟩
  refine ⟨⟨fun h => ⟨files, _, h⟩, ?_⟩, hiff, ?_⟩
  · rintro ⟨files', source, h⟩
    exact read_render (canonical_of_read h) (nesting_le_of_read h)
  · intro files' source h
    have he := canonical_of_read h
    refine ⟨fun others => read_render he (nesting_le_of_read h), ?_⟩
    obtain ⟨tokens, d, ht, hd, -⟩ := read_eq_ok_iff.1 h
    obtain ⟨rendered, hr, hl⟩ := scan_render he
    refine ⟨tokens, d, rendered, ht, hd, hr, ?_, ?_, hd.nesting_le⟩
    · intro t hmem path hfile
      refine file_not_mem_lexemes e path ?_
      rw [← hl, ← hfile]
      exact List.mem_map_of_mem hmem
    · intro others
      rw [hl]
      exact (derives_lexemes he).1

end Expr

end AccountGroups
