import AccountGroups.Proofs.Grammar
import AccountGroups.Proofs.Prefixes

/-!
# Expressions put together as texts

A text that is read as an expression can stand in parentheses, under a complement and beside an
operator, whatever operators, files and gaps it has itself: there it is read as the tree that it is
read as alone. Only the openings around it are counted anew.
-/

namespace AccountGroups

namespace Token

/-- What a text spells does not depend on the place where it begins. -/
theorem Spelled.shows {p : Nat} {cs : List Char} {ts : List Token} (h : Spelled p cs ts) :
    Shows cs (ts.map Token.lexeme) := by
  induction h with
  | nil => exact .nil
  | gap hc rest ih => exact ih.gap hc
  | mark hc rest ih => exact ih.mark hc
  | @word p w cs ts ne hw hcs rest ih =>
    intro q
    obtain ⟨us, hus, hls⟩ := ih (q + octets w)
    exact ⟨_, .word ne hw hcs hus, by simp [hls]⟩
  | @file p path cs ts hpath rest ih =>
    intro q
    obtain ⟨us, hus, hls⟩ := ih (q + octets ('<' :: path ++ ['>']))
    exact ⟨_, .file hpath hus, by simp [hls]⟩

theorem Shows.append {cs ds : List Char} {ls ms : List Lexeme} (h : Shows cs ls)
    (hds : EndsWord ds) (h' : Shows ds ms) : Shows (cs ++ ds) (ls ++ ms) := by
  intro p
  obtain ⟨ts, hts, rfl⟩ := h p
  obtain ⟨us, hus, rfl⟩ := h' (p + octets cs)
  exact ⟨ts ++ us, hts.append hds hus, List.map_append⟩

end Token

namespace Expr

open Token

def Operator.mark : Operator → Char
  | inter => '&'
  | union => '|'

theorem Operator.mark?_mark (operator : Operator) : mark? operator.mark = some operator.lexeme := by
  cases operator <;> rfl

/-- No derivation of the text goes deeper than reading does. -/
def WithinLimit (files : Files) (source : String) : Prop :=
  ∀ tokens e d, scan source = .ok tokens →
    Derives files .expression (tokens.map Token.lexeme) e d → d ≤ maxNesting

/-- Wherever it stands, the text is a part with this tree and this depth. -/
def Forms (files : Files) (part : Part) (cs : List Char) (e : Expr) (d : Nat) : Prop :=
  ∃ ls, Shows cs ls ∧ Derives files part ls e d

namespace Forms

variable {files : Files} {cs ds : List Char} {e l r : Expr} {d d' : Nat}

theorem paren (h : Forms files .expression cs e d) :
    Forms files .primary ('(' :: cs ++ [')']) e (d + 1) := by
  obtain ⟨ls, hls, he⟩ := h
  have hclose : Shows [')'] [.closeParen] := Shows.nil.mark rfl
  exact ⟨_, (hls.append (endsWord_cons.2 rfl) hclose).mark rfl, .paren he⟩

theorem tilde (h : Forms files .primary cs e d) :
    Forms files .primary ('~' :: cs) (.compl e) (d + 1) := by
  obtain ⟨ls, hls, he⟩ := h
  exact ⟨_, hls.mark rfl, .tilde he⟩

theorem operand (h : Forms files .primary cs e d) : Forms files .expression cs e d := by
  obtain ⟨ls, hls, he⟩ := h
  exact ⟨ls, hls, .operand he⟩

theorem binary (operator : Operator) (left : Forms files .expression cs l d)
    (right : Forms files .primary ds r d') :
    Forms files .expression (cs ++ ' ' :: operator.mark :: ' ' :: ds) (operator.apply l r)
      (max d d') := by
  obtain ⟨ls, hls, hl⟩ := left
  obtain ⟨rs, hrs, hr⟩ := right
  have hoperator : Shows (' ' :: operator.mark :: ' ' :: ds) (operator.lexeme :: rs) :=
    ((hrs.gap rfl).mark operator.mark?_mark).gap rfl
  exact ⟨_, hls.append (endsWord_cons.2 rfl) hoperator, .binary operator hl hr⟩

section Texts

variable {A B : String} {a b : Expr} (ha : Forms files .expression A.toList a d)
include ha

theorem compl : Forms files .expression s!"~({A})".toList (.compl a) (d + 2) := by
  simpa [toString] using ha.paren.tilde.operand

theorem compl_compl : Forms files .expression s!"~~({A})".toList (.compl (.compl a)) (d + 3) := by
  simpa [toString] using ha.paren.tilde.tilde.operand

variable (hb : Forms files .expression B.toList b d')
include hb

theorem inter : Forms files .expression s!"({A}) & ({B})".toList (.inter a b)
    (max (d + 1) (d' + 1)) := by
  simpa [toString, Operator.mark, Operator.apply] using ha.paren.operand.binary .inter hb.paren

theorem union : Forms files .expression s!"({A}) | ({B})".toList (.union a b)
    (max (d + 1) (d' + 1)) := by
  simpa [toString, Operator.mark, Operator.apply] using ha.paren.operand.binary .union hb.paren

/-- What stands on the left needs no parentheses, whatever operators it has. -/
theorem inter_left : Forms files .expression s!"{A} & ({B})".toList (.inter a b)
    (max d (d' + 1)) := by
  simpa [toString, Operator.mark, Operator.apply] using ha.binary .inter hb.paren

theorem union_left : Forms files .expression s!"{A} | ({B})".toList (.union a b)
    (max d (d' + 1)) := by
  simpa [toString, Operator.mark, Operator.apply] using ha.binary .union hb.paren

theorem compl_inter : Forms files .expression s!"~(({A}) & ({B}))".toList (.compl (.inter a b))
    (max (d + 1) (d' + 1) + 2) := by
  simpa [toString] using (ha.inter hb).paren.tilde.operand

theorem union_compl_compl : Forms files .expression s!"~({A}) | ~({B})".toList
    (.union (.compl a) (.compl b)) (max (d + 2) (d' + 2)) := by
  simpa [toString, Operator.mark, Operator.apply] using
    ha.paren.tilde.operand.binary .union hb.paren.tilde

theorem inter_compl : Forms files .expression s!"({A}) & ~({B})".toList (.inter a (.compl b))
    (max (d + 1) (d' + 2)) := by
  simpa [toString, Operator.mark, Operator.apply] using
    ha.paren.operand.binary .inter hb.paren.tilde

theorem union_compl : Forms files .expression s!"({A}) | ~({B})".toList (.union a (.compl b))
    (max (d + 1) (d' + 2)) := by
  simpa [toString, Operator.mark, Operator.apply] using
    ha.paren.operand.binary .union hb.paren.tilde

end Texts

end Forms

variable {files : Files} {source : String} {e : Expr} {d : Nat}

theorem exists_forms_of_read (h : read files source = .ok e) :
    ∃ d, Forms files .expression source.toList e d := by
  obtain ⟨tokens, d, hscan, he, -⟩ := read_eq_ok_iff.1 h
  exact ⟨d, _, (scan_eq_ok_iff_spelled.1 hscan).shows, he⟩

theorem Forms.read_of_le (h : Forms files .expression source.toList e d) (hd : d ≤ maxNesting) :
    Expr.read files source = .ok e := by
  obtain ⟨ls, hls, he⟩ := h
  obtain ⟨tokens, hscan, rfl⟩ := hls.scan
  exact read_eq_ok_iff.2 ⟨tokens, d, hscan, he, hd⟩

theorem Forms.read (h : Forms files .expression source.toList e d)
    (within : WithinLimit files source) : Expr.read files source = .ok e := by
  obtain ⟨ls, hls, he⟩ := h
  obtain ⟨tokens, hscan, rfl⟩ := hls.scan
  exact read_eq_ok_iff.2 ⟨tokens, d, hscan, he, within tokens e d hscan he⟩

/-- A text that goes no deeper than one within the limit is within the limit. -/
theorem Forms.withinLimit_of_le {source' : String} {e' : Expr} {d' : Nat}
    (h : Forms files .expression source.toList e d)
    (h' : Forms files .expression source'.toList e' d') (hd : d' ≤ d)
    (within : WithinLimit files source) : WithinLimit files source' := by
  obtain ⟨ls, hls, he⟩ := h
  obtain ⟨tokens, hscan, rfl⟩ := hls.scan
  obtain ⟨ls', hls', he'⟩ := h'
  obtain ⟨tokens', hscan', rfl⟩ := hls'.scan
  intro tokens'' e'' d'' hscan'' he''
  cases hscan'.symm.trans hscan''
  rw [← (he'.unique he'').2]
  exact Nat.le_trans hd (within tokens e d hscan he)

theorem withinLimit_of_read (h : read files source = .ok e) : WithinLimit files source := by
  obtain ⟨tokens, d, hscan, he, hd⟩ := read_eq_ok_iff.1 h
  intro tokens' e' d' hscan' he'
  cases hscan.symm.trans hscan'
  rwa [(he'.unique he).2]

end Expr

end AccountGroups
