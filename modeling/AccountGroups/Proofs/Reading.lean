import AccountGroups.Expr.Reading

/-!
# Runs of reading

One step of reading as a relation with a constructor for each move, and runs of steps. Neither
knows a bound on the nesting: a run keeps the greatest depth on its way, and reading takes the
runs whose greatest depth is at most `maxNesting`.
-/

namespace AccountGroups.Expr

def Operator.lexeme : Operator → Lexeme
  | .inter => .ampersand
  | .union => .bar

def depthOf (openings : List Opening) : Nat := openings.countP Opening.nests

@[simp] theorem depthOf_nil : depthOf [] = 0 := rfl

@[simp] theorem depthOf_tilde (os : List Opening) : depthOf (.tilde :: os) = depthOf os + 1 :=
  List.countP_cons_of_pos rfl

@[simp] theorem depthOf_paren (os : List Opening) : depthOf (.paren :: os) = depthOf os + 1 :=
  List.countP_cons_of_pos rfl

@[simp] theorem depthOf_left (e : Expr) (o : Operator) (os : List Opening) :
    depthOf (.left e o :: os) = depthOf os :=
  List.countP_cons_of_neg (by simp [Opening.nests])

@[simp] theorem State.depth_mk (place : Place) (os : List Opening) :
    (⟨place, os⟩ : State).depth = depthOf os := rfl

theorem State.depth_complete_le (e : Expr) (os : List Opening) :
    (State.complete e os).depth ≤ depthOf os := by
  induction os generalizing e with
  | nil => exact Nat.le_refl _
  | cons o os ih =>
    cases o with
    | tilde => exact Nat.le_trans (ih (.compl e)) (by simp)
    | paren => exact Nat.le_refl _
    | left operand operator => simp [State.complete]

/-- `Step files s l next`: a token with the lexeme `l` takes reading from `s` to `next`, however
many openings that leaves. -/
inductive Step (files : Files) : State → Lexeme → State → Prop
  | tilde {os} : Step files ⟨.primary, os⟩ .tilde ⟨.primary, .tilde :: os⟩
  | paren {os} : Step files ⟨.primary, os⟩ .openParen ⟨.primary, .paren :: os⟩
  | handle {os word} : Step files ⟨.primary, os⟩ (.bareword word) ⟨.afterHandle word, os⟩
  | file {os path handles} (h : HandleFile.read files path = .ok handles) :
      Step files ⟨.primary, os⟩ (.file path) (.complete (.source (.ofHandles handles)) os)
  | openSet {os} : Step files ⟨.primary, os⟩ .openBrace ⟨.firstMember, os⟩
  | dot {os word} : Step files ⟨.afterHandle word, os⟩ .dot ⟨.command word, os⟩
  | slash {os word} : Step files ⟨.afterHandle word, os⟩ .slash ⟨.list word, os⟩
  | command {os handle word sourceOf} (h : command? word = some sourceOf) :
      Step files ⟨.command handle, os⟩ (.bareword word) (.complete (.source (sourceOf handle)) os)
  | list {os owner word} :
      Step files ⟨.list owner, os⟩ (.bareword word) (.complete (.source (.membersOf owner word)) os)
  | emptySet {os} :
      Step files ⟨.firstMember, os⟩ .closeBrace (.complete (.source (.ofHandles [])) os)
  | first {os word} : Step files ⟨.firstMember, os⟩ (.bareword word) ⟨.afterMember [word], os⟩
  | comma {os read} : Step files ⟨.afterMember read, os⟩ .comma ⟨.member read, os⟩
  | member {os read word} :
      Step files ⟨.member read, os⟩ (.bareword word) ⟨.afterMember (word :: read), os⟩
  | closeSet {os read} :
      Step files ⟨.afterMember read, os⟩ .closeBrace
        (.complete (.source (.ofHandles read.reverse)) os)
  | inter {os e} : Step files ⟨.operator e, os⟩ .ampersand ⟨.primary, .left e .inter :: os⟩
  | union {os e} : Step files ⟨.operator e, os⟩ .bar ⟨.primary, .left e .union :: os⟩
  | closeParen {os e} : Step files ⟨.operator e, .paren :: os⟩ .closeParen (.complete e os)

variable {files : Files}

theorem Step.operator (e : Expr) (operator : Operator) (os : List Opening) :
    Step files ⟨.operator e, os⟩ operator.lexeme ⟨.primary, .left e operator :: os⟩ := by
  cases operator
  · exact .inter
  · exact .union

theorem Step.unique {s t u : State} {l : Lexeme} (h : Step files s l t) (h' : Step files s l u) :
    t = u := by
  cases h <;> cases h' <;> grind

/-- Only an opening adds to the depth. -/
theorem Step.depth_le {s next : State} {l : Lexeme} (h : Step files s l next) :
    next.depth ≤ s.depth ∨
      ((l = .tilde ∨ l = .openParen) ∧ s.place = .primary ∧ next.depth = s.depth + 1) := by
  cases h with
  | tilde => exact .inr (by simp)
  | paren => exact .inr (by simp)
  | file | command | list | emptySet | closeSet => exact .inl (State.depth_complete_le _ _)
  | closeParen => exact .inl (Nat.le_trans (State.depth_complete_le _ _) (by simp))
  | handle | openSet | dot | slash | first | comma | member | inter | union => exact .inl (by simp)

theorem State.nest_eq_ok_iff {s next : State} {opening : Opening} {t : Token} :
    s.nest opening t = .ok next ↔
      s.depth < maxNesting ∧ next = ⟨.primary, opening :: s.openings⟩ := by
  unfold State.nest
  split <;> simp [refuse, eq_comm, *]

theorem Step.of_step {s next : State} {t : Token} (h : s.step files t = .ok next) :
    Step files s t.lexeme next := by
  obtain ⟨place, os⟩ := s
  obtain ⟨l, position⟩ := t
  cases place <;> cases l <;>
    simp only [State.step, refuse, State.nest_eq_ok_iff, State.depth_mk, Except.ok.injEq,
      reduceCtorEq] at h
  case primary.tilde =>
    obtain ⟨-, rfl⟩ := h
    exact .tilde
  case primary.openParen =>
    obtain ⟨-, rfl⟩ := h
    exact .paren
  case primary.file path =>
    cases hf : HandleFile.read files path with
    | error e => rw [hf] at h; cases h
    | ok handles => rw [hf] at h; cases h; exact .file hf
  case command.bareword handle word =>
    split at h
    · next sourceOf hc => cases h; exact .command hc
    · cases h
  case operator.closeParen =>
    split at h
    · cases h; exact .closeParen
    · cases h
  all_goals
    subst h
    constructor

theorem Step.step {s next : State} {t : Token} (h : Step files s t.lexeme next)
    (hd : next.depth ≤ maxNesting) : s.step files t = .ok next := by
  obtain ⟨l, position⟩ := t
  generalize hl : (⟨l, position⟩ : Token).lexeme = l' at h
  obtain rfl : l = l' := hl
  cases h with
  | tilde | paren =>
    rw [State.depth_mk] at hd
    exact State.nest_eq_ok_iff.2 ⟨Nat.lt_of_succ_le (by simpa using hd), rfl⟩
  | file h => simp only [State.step, h, Except.map]
  | command h => simp only [State.step, h]
  | handle | openSet | dot | slash | list | emptySet | first | comma | member | closeSet | inter
    | union | closeParen => rfl

/-- The step that would nest too deep is refused. -/
theorem Step.refused {s next : State} {t : Token} (h : Step files s t.lexeme next)
    (hs : s.depth ≤ maxNesting) (hd : maxNesting < next.depth) :
    (t.lexeme = .tilde ∨ t.lexeme = .openParen) ∧
      s.step files t = refuse s!"at most {maxNesting} nested '~' or '('" t := by
  rcases h.depth_le with hle | ⟨hl, hp, hn⟩
  · omega
  refine ⟨hl, ?_⟩
  have hnot : ¬ s.depth < maxNesting := by omega
  rcases hl with hl | hl <;> simp only [State.step, hp, hl, State.nest, hnot, if_false]

/-- A step is taken when it does not nest too deep. -/
theorem step_eq_ok_iff {s next : State} {t : Token} (hs : s.depth ≤ maxNesting) :
    s.step files t = .ok next ↔ Step files s t.lexeme next ∧ next.depth ≤ maxNesting := by
  constructor
  · intro h
    refine ⟨.of_step h, Nat.le_of_not_lt fun hd => ?_⟩
    rw [((Step.of_step h).refused hs hd).2] at h
    cases h
  · rintro ⟨h, hd⟩
    exact h.step hd

/-- `Runs files s ls t peak`: the lexemes `ls` take reading from `s` to `t`, and `peak` is the
greatest depth of a state on the way. -/
inductive Runs (files : Files) : State → List Lexeme → State → Nat → Prop
  | nil {s} : Runs files s [] s s.depth
  | cons {s l next ls t peak} (step : Step files s l next) (rest : Runs files next ls t peak) :
      Runs files s (l :: ls) t (max s.depth peak)

theorem Runs.of_eq {s t : State} {ls : List Lexeme} {p q : Nat} (h : Runs files s ls t p)
    (hp : p = q) : Runs files s ls t q :=
  hp ▸ h

theorem Runs.depth_le {s t : State} {ls : List Lexeme} {peak : Nat} (h : Runs files s ls t peak) :
    s.depth ≤ peak := by
  cases h with
  | nil => exact Nat.le_refl _
  | cons => exact Nat.le_max_left ..

theorem Runs.unique {s t u : State} {ls : List Lexeme} {p q : Nat} (h : Runs files s ls t p)
    (h' : Runs files s ls u q) : t = u ∧ p = q := by
  induction h generalizing q with
  | nil =>
    cases h'
    exact ⟨rfl, rfl⟩
  | cons step rest ih =>
    cases h' with
    | cons step' rest' =>
      obtain rfl := step.unique step'
      obtain ⟨rfl, rfl⟩ := ih rest'
      exact ⟨rfl, rfl⟩

theorem Runs.append {s t u : State} {ls ms : List Lexeme} {p q : Nat} (h : Runs files s ls t p)
    (h' : Runs files t ms u q) : Runs files s (ls ++ ms) u (max p q) := by
  induction h with
  | nil => rwa [Nat.max_eq_right h'.depth_le]
  | cons step rest ih =>
    rw [Nat.max_assoc]
    exact .cons step (ih h')

theorem Runs.snoc {s t u : State} {ls : List Lexeme} {l : Lexeme} {p : Nat}
    (h : Runs files s ls t p) (step : Step files t l u) :
    Runs files s (ls ++ [l]) u (max p (max t.depth u.depth)) :=
  h.append (.cons step .nil)

theorem run_eq_ok_iff {s t : State} {ts : List Token} (hs : s.depth ≤ maxNesting) :
    s.run files ts = .ok t ↔
      ∃ peak ≤ maxNesting, Runs files s (ts.map Token.lexeme) t peak := by
  induction ts generalizing s with
  | nil =>
    constructor
    · intro h
      cases h
      exact ⟨_, hs, .nil⟩
    · rintro ⟨peak, -, h⟩
      cases h
      rfl
  | cons u ts ih =>
    constructor
    · intro h
      cases hu : s.step files u with
      | error e => rw [State.run, hu] at h; cases h
      | ok next =>
        rw [State.run, hu] at h
        obtain ⟨step, hd⟩ := (step_eq_ok_iff hs).1 hu
        obtain ⟨peak, hp, rest⟩ := (ih hd).1 h
        exact ⟨_, Nat.max_le.2 ⟨hs, hp⟩, .cons step rest⟩
    · rintro ⟨peak, hp, h⟩
      cases h with
      | cons step rest =>
        have hrest := (Nat.max_le.1 hp).2
        have hd := Nat.le_trans rest.depth_le hrest
        rw [State.run, step.step hd]
        exact (ih hd).2 ⟨_, hrest, rest⟩

/-- A run that would nest too deep ends at the opening that is one too many. -/
theorem Runs.refused {s t : State} {ts : List Token} {peak : Nat}
    (h : Runs files s (ts.map Token.lexeme) t peak) (hs : s.depth ≤ maxNesting)
    (hp : maxNesting < peak) :
    ∃ u ∈ ts, (u.lexeme = .tilde ∨ u.lexeme = .openParen) ∧
      s.run files ts = refuse s!"at most {maxNesting} nested '~' or '('" u := by
  induction ts generalizing s peak with
  | nil =>
    cases h
    omega
  | cons u ts ih =>
    cases h with
    | @cons _ _ next _ _ peak step rest =>
      by_cases hd : next.depth ≤ maxNesting
      · obtain ⟨v, hv, hl, hr⟩ := ih rest hd (by omega)
        refine ⟨v, List.mem_cons_of_mem _ hv, hl, ?_⟩
        rw [State.run, step.step hd]
        exact hr
      · obtain ⟨hl, hr⟩ := step.refused hs (by omega)
        refine ⟨u, List.mem_cons_self .., hl, ?_⟩
        rw [State.run, hr]
        rfl

end AccountGroups.Expr
