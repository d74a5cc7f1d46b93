import AccountGroups.Proofs.Rendering
import Mathlib.Data.List.Induction

/-!
# The height of trees that are read

The limit on nesting counts the openings `~` and `(` around a place. It does not count operators,
and as these group to the left, a chain of them makes a tree as high as the chain is long. Nesting
and the longest chain together bound the height, and no smaller number does.
-/

namespace AccountGroups.Expr

/-- The nodes on the longest way from the root to a source: how deep a walk over the tree goes. -/
def height : Expr → Nat
  | source _ => 1
  | inter left right | union left right => max left.height right.height + 1
  | compl inner => inner.height + 1

/-- The longest chain of operators when `counts` has the operators that were met in each of the
pairs of parentheses that are open, the innermost first. Those in inner pairs do not count. -/
def chainFrom : List Nat → List Lexeme → Nat
  | counts, [] => counts.foldr max 0
  | counts, .openParen :: ls => chainFrom (0 :: counts) ls
  | n :: counts, .closeParen :: ls => max n (chainFrom counts ls)
  | n :: counts, .ampersand :: ls | n :: counts, .bar :: ls => chainFrom ((n + 1) :: counts) ls
  | counts, _ :: ls => chainFrom counts ls

/-- The greatest number of operators that stand between the same parentheses. -/
def chain (ls : List Lexeme) : Nat := chainFrom [0] ls

/-- The greatest height of a tree that is read from a text with this longest chain. -/
def heightBound (chain : Nat) : Nat := chain + 1 + maxNesting * max 1 chain

variable {files : Files} {n : Nat} {counts : List Nat} {rest : List Lexeme}

theorem chainFrom_operator (operator : Operator) :
    chainFrom (n :: counts) (operator.lexeme :: rest) = chainFrom ((n + 1) :: counts) rest := by
  cases operator <;> rfl

theorem chainFrom_listed (words : List String) :
    chainFrom counts (Lexeme.listed words ++ rest) = chainFrom counts rest := by
  have hmore : ∀ words : List String,
      chainFrom counts ((words.flatMap fun w => [.comma, .bareword w]) ++ rest) =
        chainFrom counts rest := by
    intro words
    induction words with
    | nil => rfl
    | cons w words ih => simpa [chainFrom] using ih
  cases words with
  | nil => rfl
  | cons word words => simpa [Lexeme.listed, chainFrom] using hmore words

/-- Reading on behind a part adds its own operators to the count, and its height is bounded when no
chain is longer than `k`. The operators inside a pair of parentheses are a whole chain when it
closes. -/
theorem Derives.height_le {part : Part} {ls : List Lexeme} {e : Expr} {d : Nat}
    (h : Derives files part ls e d) :
    ∃ own, (part = .primary → own = 0) ∧ ∀ k n counts rest,
      chainFrom (n :: counts) (ls ++ rest) ≤ k →
        chainFrom ((n + own) :: counts) rest ≤ k ∧ (0 < k → e.height ≤ own + 1 + d * k) := by
  induction h with
  | followers | following | members | file =>
    exact ⟨0, fun _ => rfl, fun k n counts rest hk => ⟨hk, fun _ => by simp [height]⟩⟩
  | set handles =>
    refine ⟨0, fun _ => rfl, fun k n counts rest hk => ⟨?_, fun _ => by simp [height]⟩⟩
    simpa [chainFrom, chainFrom_listed] using hk
  | @tilde ls e d inner ih =>
    obtain ⟨own, hown, ih⟩ := ih
    obtain rfl := hown rfl
    refine ⟨0, fun _ => rfl, fun k n counts rest hk => ?_⟩
    obtain ⟨hrest, hheight⟩ := ih k n counts rest hk
    refine ⟨hrest, fun hpos => ?_⟩
    have he := hheight hpos
    rw [height, Nat.succ_mul]
    omega
  | @paren ls e d inner ih =>
    obtain ⟨own, -, ih⟩ := ih
    refine ⟨0, fun _ => rfl, fun k n counts rest hk => ?_⟩
    obtain ⟨hrest, hheight⟩ := ih k 0 (n :: counts) (.closeParen :: rest) (by
      simpa [chainFrom] using hk)
    rw [chainFrom, Nat.max_le, Nat.zero_add] at hrest
    refine ⟨hrest.2, fun hpos => ?_⟩
    have he := hheight hpos
    rw [Nat.succ_mul]
    omega
  | operand inner ih =>
    obtain ⟨own, -, ih⟩ := ih
    exact ⟨own, nofun, ih⟩
  | @binary ls rs l r d d' operator left right ihl ihr =>
    obtain ⟨own, -, ihl⟩ := ihl
    obtain ⟨own', hown', ihr⟩ := ihr
    obtain rfl := hown' rfl
    refine ⟨own + 1, nofun, fun k n counts rest hk => ?_⟩
    obtain ⟨hmiddle, hleft⟩ := ihl k n counts (operator.lexeme :: rs ++ rest) (by
      simpa using hk)
    rw [List.cons_append, chainFrom_operator] at hmiddle
    obtain ⟨hrest, hright⟩ := ihr k (n + own + 1) counts rest hmiddle
    refine ⟨hrest, fun hpos => ?_⟩
    have hl := Nat.le_trans (hleft hpos)
      (Nat.add_le_add_left (Nat.mul_le_mul_right k (Nat.le_max_left d d')) _)
    have hr := Nat.le_trans (hright hpos)
      (Nat.add_le_add_left (Nat.mul_le_mul_right k (Nat.le_max_right d d')) _)
    have hheight : (operator.apply l r).height = max l.height r.height + 1 := by
      cases operator <;> rfl
    omega

theorem height_le_heightBound {ls : List Lexeme} {e : Expr} {d : Nat}
    (h : Derives files .expression ls e d) (hd : d ≤ maxNesting) :
    e.height ≤ heightBound (chain ls) := by
  obtain ⟨own, -, h⟩ := h.height_le
  have hchain : chainFrom [0] (ls ++ []) ≤ chain ls := by
    rw [List.append_nil]
    exact Nat.le_refl _
  have hown : own ≤ chain ls := by simpa [chainFrom] using (h (chain ls) 0 [] [] hchain).1
  have hheight := (h (max 1 (chain ls)) 0 [] [] (Nat.le_trans hchain (Nat.le_max_right 1 _))).2
    (Nat.le_max_left 1 _)
  have hmul := Nat.mul_le_mul_right (max 1 (chain ls)) hd
  rw [heightBound]
  omega

/-- A source that is written `a/b`. -/
def leaf : Expr := source (.members "a" "b")

theorem canonical_leaf : leaf.Canonical :=
  canonical_source.2 ⟨⟨⟨by decide, by simp [Token.isWordChar]⟩, by simp⟩,
    ⟨by decide, by simp [Token.isWordChar]⟩⟩

/-- The tree with a chain of further operands behind it. -/
def lengthened (e : Expr) : Nat → Expr
  | 0 => e
  | m + 1 => union (lengthened e m) leaf

/-- Complements of complements. -/
def complemented : Nat → Expr
  | 0 => leaf
  | m + 1 => compl (complemented m)

/-- Chains of `k + 1` operators inside each other, each in parentheses behind the first operator of
the next one. -/
def stacked (k : Nat) : Nat → Expr
  | 0 => lengthened (union leaf leaf) k
  | m + 1 => lengthened (union leaf (stacked k m)) k

section Lengthened

variable {e : Expr}

theorem canonical_lengthened (h : e.Canonical) (m : Nat) : (lengthened e m).Canonical := by
  induction m with
  | zero => exact h
  | succ m ih => exact canonical_union.2 ⟨ih, canonical_leaf⟩

theorem nesting_lengthened (e : Expr) (m : Nat) : (lengthened e m).nesting = e.nesting := by
  induction m with
  | zero => rfl
  | succ m ih => simp [lengthened, nesting, ih, leaf, isBinary]

theorem height_lengthened (e : Expr) (m : Nat) : (lengthened e m).height = e.height + m := by
  induction m with
  | zero => rfl
  | succ m ih =>
    have hpos : 0 < e.height := by cases e <;> simp [height]
    have hleaf : leaf.height = 1 := rfl
    rw [lengthened, height, ih, hleaf]
    omega

theorem isBinary_lengthened (h : e.isBinary = true) (m : Nat) :
    (lengthened e m).isBinary = true := by
  cases m with
  | zero => exact h
  | succ m => rfl

theorem chainFrom_lengthened (e : Expr) (m : Nat) (rest : List Lexeme) {own peak : Nat}
    (h : ∀ rest, chainFrom (n :: counts) (e.lexemes ++ rest) =
      max peak (chainFrom ((n + own) :: counts) rest)) :
    chainFrom (n :: counts) ((lengthened e m).lexemes ++ rest) =
      max peak (chainFrom ((n + own + m) :: counts) rest) := by
  induction m generalizing rest with
  | zero => exact h rest
  | succ m ih =>
    rw [← Nat.add_assoc]
    simpa [lengthened, lexemes, leaf, isBinary, enclosed, Source.lexemes, chainFrom] using
      ih (.bar :: leaf.lexemes ++ rest)

end Lengthened

section Stacked

variable (k m : Nat)

theorem canonical_stacked : (stacked k m).Canonical := by
  induction m with
  | zero => exact canonical_lengthened (canonical_union.2 ⟨canonical_leaf, canonical_leaf⟩) k
  | succ m ih => exact canonical_lengthened (canonical_union.2 ⟨canonical_leaf, ih⟩) k

theorem isBinary_stacked : (stacked k m).isBinary = true := by
  cases m <;> exact isBinary_lengthened rfl k

theorem nesting_stacked : (stacked k m).nesting = m := by
  induction m with
  | zero => rw [stacked, nesting_lengthened]; rfl
  | succ m ih =>
    rw [stacked, nesting_lengthened, nesting, ih, isBinary_stacked]
    exact Nat.max_eq_right (Nat.zero_le _)

theorem height_stacked : (stacked k m).height = (k + 1) + 1 + m * (k + 1) := by
  have hleaf : leaf.height = 1 := rfl
  induction m with
  | zero =>
    rw [stacked, height_lengthened, height, hleaf]
    omega
  | succ m ih =>
    rw [stacked, height_lengthened, height, ih, hleaf, Nat.succ_mul]
    omega

theorem chainFrom_stacked :
    ∃ peak ≤ k + 1, ∀ n counts rest, chainFrom (n :: counts) ((stacked k m).lexemes ++ rest) =
      max peak (chainFrom ((n + 1 + k) :: counts) rest) := by
  induction m with
  | zero =>
    refine ⟨0, Nat.zero_le _, fun n counts rest => ?_⟩
    refine chainFrom_lengthened _ k rest fun rest => ?_
    simp [lexemes, leaf, isBinary, enclosed, Source.lexemes, chainFrom]
  | succ m ih =>
    obtain ⟨peak, hpeak, ih⟩ := ih
    refine ⟨k + 1, Nat.le_refl _, fun n counts rest => ?_⟩
    refine chainFrom_lengthened _ k rest fun rest => ?_
    have hlexemes : (union leaf (stacked k m)).lexemes ++ rest =
        leaf.lexemes ++ .bar :: .openParen :: ((stacked k m).lexemes ++ .closeParen :: rest) := by
      simp [lexemes, isBinary_stacked, enclosed]
    rw [hlexemes]
    simp only [leaf, lexemes, Source.lexemes, List.cons_append, List.nil_append, chainFrom, ih]
    omega

end Stacked

theorem canonical_complemented (m : Nat) : (complemented m).Canonical := by
  induction m with
  | zero => exact canonical_leaf
  | succ m ih => exact canonical_compl.2 ih

theorem isBinary_complemented (m : Nat) : (complemented m).isBinary = false := by
  cases m <;> rfl

theorem nesting_complemented (m : Nat) : (complemented m).nesting = m := by
  induction m with
  | zero => rfl
  | succ m ih => simp [complemented, nesting, ih, isBinary_complemented]

theorem height_complemented (m : Nat) : (complemented m).height = m + 1 := by
  induction m with
  | zero => rfl
  | succ m ih => rw [complemented, height, ih]

theorem chain_complemented (m : Nat) : chain (complemented m).lexemes = 0 := by
  induction m with
  | zero => rfl
  | succ m ih => simpa [complemented, lexemes, isBinary_complemented, enclosed, chain, chainFrom]
      using ih

theorem exists_highest (k : Nat) : ∃ e : Expr,
    e.Canonical ∧ e.nesting ≤ maxNesting ∧ chain e.lexemes = k ∧ e.height = heightBound k := by
  cases k with
  | zero =>
    refine ⟨complemented maxNesting, canonical_complemented _, ?_, chain_complemented _, ?_⟩
    · exact Nat.le_of_eq (nesting_complemented _)
    · exact height_complemented _
  | succ k =>
    refine ⟨stacked k maxNesting, canonical_stacked k _, ?_, ?_, ?_⟩
    · exact Nat.le_of_eq (nesting_stacked k _)
    · obtain ⟨peak, hpeak, h⟩ := chainFrom_stacked k maxNesting
      have hall := h 0 [] []
      rw [List.append_nil] at hall
      rw [chain, hall, chainFrom]
      simp only [List.foldr_cons, List.foldr_nil]
      omega
    · rw [height_stacked, heightBound, Nat.max_eq_right (Nat.le_add_left 1 k)]

/-- Every length of chains has a text whose tree is as high as the bound allows. -/
theorem exists_height_eq_heightBound (k : Nat) :
    ∃ source tokens e, Token.scan source = .ok tokens ∧ chain (tokens.map Token.lexeme) = k ∧
      (∀ files, read files source = .ok e) ∧ e.height = heightBound k := by
  obtain ⟨e, he, hn, hk, hheight⟩ := exists_highest k
  obtain ⟨tokens, ht, hl⟩ := scan_render he
  exact ⟨e.render, tokens, e, ht, by rw [hl, hk], fun files => read_render he hn, hheight⟩

/-- The limit on nesting bounds no height by itself: operators make a tree as high as one likes. -/
theorem no_height_bound :
    ¬ ∃ bound, ∀ files source e, read files source = .ok e → e.height ≤ bound := by
  rintro ⟨bound, h⟩
  obtain ⟨source, tokens, e, -, -, hread, hheight⟩ := exists_height_eq_heightBound bound
  have hle := h .error source e (hread .error)
  rw [hheight, heightBound] at hle
  omega

/-- The tree that is read from a text is no higher than `heightBound` allows for its longest chain
of operators, which grows with this length alone. Each length has a text that reaches the bound. -/
theorem height_le_of_read (files : Files) :
    (∀ source e, read files source = .ok e → ∃ tokens, Token.scan source = .ok tokens ∧
      e.height ≤ heightBound (chain (tokens.map Token.lexeme))) ∧
    ∀ k, ∃ source tokens e, Token.scan source = .ok tokens ∧
      chain (tokens.map Token.lexeme) = k ∧ read files source = .ok e ∧
      e.height = heightBound k := by
  constructor
  · intro source e h
    obtain ⟨tokens, d, ht, hd, hm⟩ := read_eq_ok_iff.1 h
    exact ⟨tokens, ht, height_le_heightBound hd hm⟩
  · intro k
    obtain ⟨source, tokens, e, ht, hk, hread, hheight⟩ := exists_height_eq_heightBound k
    exact ⟨source, tokens, e, ht, hk, hread files, hheight⟩

/-- A chain of two operators inside parentheses, and one of one operator around them. -/
theorem height_le_of_read_nested :
    ∃ e, read .error "~(a/b | a/b & a/b) | a/b" = .ok e ∧ e.height = 5 ∧
      ∃ tokens, Token.scan "~(a/b | a/b & a/b) | a/b" = .ok tokens ∧
        e.height ≤ heightBound (chain (tokens.map Token.lexeme)) := by
  have hread : read .error "~(a/b | a/b & a/b) | a/b" =
      .ok (union (compl (inter (union leaf leaf) leaf)) leaf) := by decide
  obtain ⟨hbound, -⟩ := height_le_of_read .error
  exact ⟨_, hread, rfl, hbound _ _ hread⟩

end AccountGroups.Expr
