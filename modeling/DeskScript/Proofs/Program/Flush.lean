import DeskScript.Proofs.Program.Reading
import DeskScript.Proofs.Token.Literal

/-!
# Flush tokens

Whether two tokens are flush is worked out from their places: the second starts in the column
where the first ends, on the line where it starts. For two neighbours in a source with `gap`
between them,

    a.flush b ↔ gap = [] ∧ '\n' ∉ a.lexeme.toList                        (Between.flush_iff)

so a string that goes on over a line end is flush with nothing. The parser asks before it takes a
`.`, `[` or `(` for a suffix, and before it takes a `-` for the start of an argument.
-/

namespace DeskScript

/-! ## Places -/

namespace Position

theorem past_line (p : Position) (cs : List Char) : (p.past cs).line = p.line + cs.count '\n' := by
  induction cs generalizing p with
  | nil => rfl
  | cons c cs ih =>
    rw [past_cons, ih]
    by_cases hc : c = '\n'
    · simp [next, hc]
      omega
    · simp [next, hc]

theorem past_column (p : Position) {cs : List Char} (h : '\n' ∉ cs) :
    (p.past cs).column = p.column + cs.length := by
  induction cs generalizing p with
  | nil => rfl
  | cons c cs ih =>
    obtain ⟨hc, hcs⟩ : '\n' ≠ c ∧ '\n' ∉ cs := by simpa using h
    rw [past_cons, ih _ hcs]
    simp [next, hc.symm]
    omega

/-- Only the empty text leads back to where it starts. -/
theorem past_eq_self {p : Position} {cs : List Char} : p.past cs = p ↔ cs = [] := by
  refine ⟨fun h => ?_, fun h => by rw [h, past_nil]⟩
  have hline := p.past_line cs
  have hbreak : '\n' ∉ cs := by
    rw [← List.count_eq_zero]
    rw [h] at hline
    omega
  have hcolumn := p.past_column hbreak
  rw [h] at hcolumn
  exact List.eq_nil_of_length_eq_zero (by omega)

end Position

/-- Where does `b` start, if `gap` is between it and `a`? -/
theorem Token.flush_iff {a b : Token} {gap : List Char}
    (h : b.pos = a.pos.past (a.lexeme.toList ++ gap)) :
    a.flush b = true ↔ gap = [] ∧ '\n' ∉ a.lexeme.toList := by
  have hline := a.pos.past_line (a.lexeme.toList ++ gap)
  rw [List.count_append] at hline
  simp only [flush, endColumn, h, Bool.and_eq_true, beq_iff_eq, hline, ← String.length_toList]
  constructor
  · rintro ⟨hcount, hcolumn⟩
    have hbreak : '\n' ∉ a.lexeme.toList ++ gap := by
      rw [← List.count_eq_zero, List.count_append]
      omega
    rw [a.pos.past_column hbreak, List.length_append] at hcolumn
    exact ⟨List.eq_nil_of_length_eq_zero (by omega),
      fun hmem => hbreak (List.mem_append_left _ hmem)⟩
  · rintro ⟨rfl, hbreak⟩
    rw [List.append_nil, a.pos.past_column hbreak, List.count_eq_zero.mpr hbreak]
    simp

namespace Lexer

/-! ## Between two tokens -/

/-- `gap` stands between two tokens: after the text of `a` at its place, and up to that of `b`. -/
def Between (source : List Char) (a b : Token) (gap : List Char) : Prop :=
  ∃ u v, source = u ++ a.lexeme.toList ++ gap ++ b.lexeme.toList ++ v ∧ a.pos = placeAfter u ∧
    b.pos = placeAfter (u ++ a.lexeme.toList ++ gap)

/-- Each place of a source is the end of one text. -/
theorem placeAfter_inj {source u v : List Char} (hu : u <+: source) (hv : v <+: source)
    (h : placeAfter u = placeAfter v) : u = v := by
  have hle {u v : List Char} (huv : u <+: v) (h : placeAfter u = placeAfter v) : u = v := by
    obtain ⟨w, rfl⟩ := huv
    rw [← placeAfter_past] at h
    rw [Position.past_eq_self.mp h.symm, List.append_nil]
  rcases List.prefix_or_prefix_of_prefix hu hv with huv | hvu
  · exact hle huv h
  · exact (hle hvu h.symm).symm

theorem Between.unique {source gap gap' : List Char} {a b : Token} (h : Between source a b gap)
    (h' : Between source a b gap') : gap = gap' := by
  obtain ⟨u, v, hsource, hapos, hbpos⟩ := h
  obtain ⟨u', v', hsource', hapos', hbpos'⟩ := h'
  have hb : u ++ a.lexeme.toList ++ gap <+: source := ⟨b.lexeme.toList ++ v, by simp [hsource]⟩
  have hb' : u' ++ a.lexeme.toList ++ gap' <+: source := ⟨b.lexeme.toList ++ v', by simp [hsource']⟩
  have ha : u <+: source := List.IsPrefix.trans ⟨a.lexeme.toList ++ gap, by simp⟩ hb
  have ha' : u' <+: source := List.IsPrefix.trans ⟨a.lexeme.toList ++ gap', by simp⟩ hb'
  obtain rfl : u = u' := placeAfter_inj ha ha' (hapos.symm.trans hapos')
  exact List.append_cancel_left (placeAfter_inj hb hb' (hbpos.symm.trans hbpos'))

theorem Between.flush_iff {source gap : List Char} {a b : Token} (h : Between source a b gap) :
    a.flush b = true ↔ gap = [] ∧ '\n' ∉ a.lexeme.toList := by
  obtain ⟨u, v, -, hapos, hbpos⟩ := h
  refine Token.flush_iff ?_
  rw [hbpos, hapos, placeAfter_past, List.append_assoc]

/-- Neighbours in a source have something between them, if only the empty text. -/
theorem exists_between {source : String} {before after : List Token} {a b : Token}
    (h : tokenize source = .ok (before ++ a :: b :: after)) :
    ∃ gap, Between source.toList a b gap := by
  have haccounts : Accounts source.toList (tokenize source) :=
    tokensFrom_accounts (scanning_start _)
  rw [h] at haccounts
  obtain ⟨ps, hps, hsource, hlaid, -⟩ := haccounts
  obtain ⟨before, rest, rfl, -, hrest⟩ := List.map_eq_append_iff.mp hps
  obtain ⟨p, rest, rfl, rfl, htail⟩ := List.map_eq_cons_iff.mp hrest
  obtain ⟨q, after, rfl, rfl, -⟩ := List.map_eq_cons_iff.mp htail
  obtain ⟨-, -, hp⟩ := hlaid before p (q :: after) rfl
  obtain ⟨-, -, hq⟩ := hlaid (before ++ [p]) q after (by simp)
  refine ⟨q.gap, written before ++ p.gap, written after, ?_, hp, ?_⟩
  · simp [hsource, written, Entry.text]
  · simpa [written, Entry.text] using hq

/-- Of all tokens only strings, templates and line breaks may have a line feed in their text. -/
theorem TokenText.lineFeed {l : List Char} {kind : TokenKind} (h : TokenText l kind)
    (hl : '\n' ∈ l) :
    kind = .newline ∨ (∃ s, kind = .string s) ∨ ∃ parts, kind = .template parts := by
  have hname {l : List Char} (h : ∀ d ∈ l, isNameChar d) : '\n' ∉ l := fun hmem => by
    cases h _ hmem
  have hdigit {l : List Char} (h : ∀ d ∈ l, Number.isDigit d) : '\n' ∉ l := fun hmem => by
    cases h _ hmem
  match kind with
  | .number x =>
    obtain ⟨⟨whole, frac, -, hwhole, rfl | ⟨-, hfrac, rfl⟩⟩, -⟩ := h
    · exact absurd hl (hdigit hwhole)
    · simp [hdigit hwhole, hdigit hfrac] at hl
  | .ident x => exact absurd hl (hname h.1.isNameChar)
  | .keyword k => exact absurd hl (hname h.1.isNameChar)
  | .variable x =>
    obtain ⟨rfl, -, hx⟩ := h
    simp [hname hx] at hl
  | .mark m =>
    obtain rfl := h
    cases m <;> simp [Mark.text] at hl
  | .newline => exact .inl rfl
  | .eof =>
    obtain rfl := h
    cases hl
  | .string s => exact .inr (.inl ⟨s, rfl⟩)
  | .template parts => exact .inr (.inr ⟨parts, rfl⟩)

end Lexer

namespace Reader

/-! ## Marks that ask -/

/-- `x` is `e` with members and indices after it. -/
inductive Suffixed (e : Expr) : Expr → Prop
  | refl : Suffixed e e
  | member {x : Expr} (name : String) : Suffixed e x → Suffixed e (.member x.pos x name)
  | index {x : Expr} (i : Expr) : Suffixed e x → Suffixed e (.index x.pos x i)

theorem Suffixed.trans {e x y : Expr} (hx : Suffixed e x) (hy : Suffixed x y) : Suffixed e y := by
  induction hy with
  | refl => exact hx
  | member name _ ih => exact .member name ih
  | index i _ ih => exact .index i ih

theorem suffixes_suffixed {expression : Reader Expr} {n : Nat} {e x : Expr} {c c' : Cursor}
    (h : suffixes expression n e c = .ok (x, c')) : Suffixed e x := by
  induction n generalizing e c with
  | zero => exact (fail_ok.mp h).elim
  | succ n ih =>
    rw [suffixes] at h
    obtain ⟨d, _, hd, h⟩ := bind_ok.mp h
    split at h
    · obtain ⟨_, _, -, h⟩ := bind_ok.mp h
      obtain ⟨name, _, -, h⟩ := bind_ok.mp h
      exact (Suffixed.refl.member name).trans (ih h)
    · split at h
      · obtain ⟨_, _, -, h⟩ := bind_ok.mp h
        obtain ⟨_, _, -, h⟩ := bind_ok.mp h
        obtain ⟨i, _, -, h⟩ := bind_ok.mp h
        obtain ⟨_, _, -, h⟩ := bind_ok.mp h
        obtain ⟨_, _, -, h⟩ := bind_ok.mp h
        exact (Suffixed.refl.index i).trans (ih h)
      · obtain ⟨rfl, -⟩ := pure_ok.mp h
        exact .refl

/-- How a mark at the cursor is read after an operand, a name or an argument, where it counts as
flush just if `flush` holds. -/
structure Heeds (flush : Prop) (c : Cursor) : Prop where
  member : c.here.kind = .mark .dot → ∀ expression n e,
    (flush → ∀ x c', suffixes expression (n + 1) e c = .ok (x, c') →
      Suffixed (.member e.pos e c.next.here.lexeme) x) ∧
    (¬ flush → suffixes expression (n + 1) e c = .ok (e, c))
  index : c.here.kind = .mark .openBracket → ∀ expression n e,
    (flush → ∀ x c', suffixes expression (n + 1) e c = .ok (x, c') →
      ∃ i, Suffixed (.index e.pos e i) x) ∧
    (¬ flush → suffixes expression (n + 1) e c = .ok (e, c))
  /-- The `(` after a name. -/
  paren : c.here.kind = .mark .openParen → ∀ n inner depth pos name,
    (flush → bareName n inner depth pos name c =
      (parenArgs n (inner.expression depth) c).map fun (args, c') => (.call pos name args, c')) ∧
    (¬ flush → bareName n inner depth pos name c =
      .ok (.var pos name, { c with bare := c.bare + 1 }))
  /-- The `(` after the word `call` and a name. -/
  callParen : c.here.kind = .mark .openParen → ∀ n inner depth name d,
    variableName .callee d = .ok (name, c) →
    (flush → callTail n inner depth d =
      (parenArgs n (inner.expression depth) c).map fun (args, c') => ((name, args), c')) ∧
    (¬ flush → callTail n inner depth d =
      (bareArgs (inner.unary depth) n [] c).map fun (args, c') => ((name, args), c'))
  /-- The `(` after the name that a statement starts with. -/
  statementParen : ∀ n expr pos name d, d.next = c →
    (flush → callStatement n expr pos name d =
      (parenArgs n expr c).map fun (args, c') => (.call pos name args, c')) ∧
    (¬ flush → callStatement n expr pos name d =
      .error ⟨.unexpected c.found (.wanting .flushParen), c.here.pos⟩)

theorem bind_pure_run {α β : Type} (r : Reader α) (g : α → β) (c : Cursor) :
    (r >>= fun a => pure (g a)) c = (r c).map fun (a, c') => (g a, c') := by
  have heq : (r >>= fun a => pure (g a)) c = (r c >>= fun p => (pure (g p.1) : Reader β) p.2) := rfl
  rw [heq]
  cases r c <;> rfl

theorem propertyName_ok {name : String} {c c' : Cursor} (h : propertyName c = .ok (name, c')) :
    name = c.here.lexeme := by
  replace h := bind_peek_ok h
  cases hk : c.here.kind <;> simp only [hk] at h
  case ident | keyword => exact (Prod.mk.inj (Except.ok.inj h)).1.symm
  all_goals exact (want_ok.mp h).elim

/-- Without a flush mark there is no suffix. -/
theorem suffixes_stop {c : Cursor} (h : ¬ c.adjacent = true) (expression : Reader Expr) (n : Nat)
    (e : Expr) : suffixes expression (n + 1) e c = .ok (e, c) := by
  rw [suffixes, bind_run (get_run c), if_neg (by simp [h]), if_neg (by simp [h]), pure_run]

theorem heeds_adjacent (c : Cursor) : Heeds (c.adjacent = true) c where
  member hk expression n e := by
    refine ⟨fun hflush x c' h => ?_, fun hflush => suffixes_stop hflush expression n e⟩
    rw [suffixes, bind_run (get_run c), if_pos (by simp [hk, hflush]),
      bind_run (advance_run c)] at h
    obtain ⟨name, d, hname, h⟩ := bind_ok.mp h
    rw [← propertyName_ok hname]
    exact suffixes_suffixed h
  index hk expression n e := by
    refine ⟨fun hflush x c' h => ?_, fun hflush => suffixes_stop hflush expression n e⟩
    rw [suffixes, bind_run (get_run c), if_neg (by simp [hk]), if_pos (by simp [hk, hflush]),
      bind_run (advance_run c)] at h
    obtain ⟨_, _, -, h⟩ := bind_ok.mp h
    obtain ⟨i, _, -, h⟩ := bind_ok.mp h
    obtain ⟨_, _, -, h⟩ := bind_ok.mp h
    obtain ⟨_, _, -, h⟩ := bind_ok.mp h
    exact ⟨i, suffixes_suffixed h⟩
  paren hk n inner depth pos name := by
    refine ⟨fun hflush => ?_, fun hflush => ?_⟩ <;>
      rw [bareName, bind_run (atFlushParen_run c)]
    · rw [if_pos (by simp [hk, hflush]), bind_pure_run]
    · rw [if_neg (by simp [hflush])]
      rfl
  callParen hk n inner depth name d hname := by
    refine ⟨fun hflush => ?_, fun hflush => ?_⟩ <;>
      rw [callTail, bind_run hname, bind_run (atFlushParen_run c)]
    · rw [if_pos (by simp [hk, hflush]), bind_pure_run]
    · rw [if_neg (by simp [hflush]), bind_pure_run]
  statementParen n expr pos name d hd := by
    subst hd
    refine ⟨fun hflush => ?_, fun hflush => ?_⟩ <;>
      rw [callStatement, bind_run (advance_run d), bind_run (get_run d.next)]
    · rw [if_neg (by simp [hflush])]
      exact bind_pure_run _ _ _
    · rw [if_pos (by simp [hflush])]
      rfl

end Reader

/-- **Adjacency.** A token of a source is adjacent to the one before it just if no character stands
between them and the text of that one stays on its line. Suffixes and arguments follow that. -/
theorem adjacent_iff_nothing_between {source : String} {before after : List Token} {a b : Token}
    (h : tokenize source = .ok (before ++ a :: b :: after)) :
    ∃ gap, Lexer.Between source.toList a b gap ∧
      (∀ gap', Lexer.Between source.toList a b gap' → gap' = gap) ∧
      ('\n' ∈ a.lexeme.toList →
        a.kind = .newline ∨ (∃ s, a.kind = .string s) ∨ ∃ parts, a.kind = .template parts) ∧
      ∀ c : Cursor, c.before = some a → c.here = b → c.ahead = after →
        (c.adjacent = true ↔ gap = [] ∧ '\n' ∉ a.lexeme.toList) ∧
        Reader.Heeds (gap = [] ∧ '\n' ∉ a.lexeme.toList) c ∧
        (b.kind = .mark .minus → ∃ t rest gap', after = t :: rest ∧
          Lexer.Between source.toList b t gap' ∧
          (Reader.startsArgument c = true ↔
            ¬ (gap = [] ∧ '\n' ∉ a.lexeme.toList) ∧ gap' = [])) := by
  obtain ⟨gap, hgap⟩ := Lexer.exists_between h
  obtain ⟨htexts, last, hlast, heof⟩ := Lexer.tokenText_of_tokenize h
  refine ⟨gap, hgap, fun gap' h' => h'.unique hgap, (htexts a (by simp)).lineFeed, ?_⟩
  intro c hbefore hhere hahead
  have hadjacent : c.adjacent = true ↔ gap = [] ∧ '\n' ∉ a.lexeme.toList := by
    rw [Cursor.adjacent, hbefore, hhere]
    exact hgap.flush_iff
  refine ⟨hadjacent, propext hadjacent ▸ Reader.heeds_adjacent c, fun hk => ?_⟩
  -- a `-` is not the end of input, so a token follows it
  obtain ⟨t, rest, rfl⟩ : ∃ t rest, after = t :: rest := by
    refine List.exists_cons_of_ne_nil fun hnil => ?_
    obtain rfl : b = last := by simpa [hnil] using hlast
    rw [hk] at heof
    cases heof
  obtain ⟨gap', hgap'⟩ := @Lexer.exists_between source (before ++ [a]) rest b t (by simpa using h)
  have hminus : '\n' ∉ b.lexeme.toList := by
    intro hmem
    have hkinds := (htexts b (by simp)).lineFeed hmem
    simp [hk] at hkinds
  refine ⟨t, rest, gap', rfl, hgap', ?_⟩
  have hfollowing : c.following = t := by simp [Cursor.following, hahead]
  simp only [Reader.startsArgument, hhere, hk, Cursor.atPrefixMinus, hfollowing, BEq.rfl,
    Bool.true_and, Bool.and_eq_true, Bool.not_eq_true', ← Bool.not_eq_true, hadjacent,
    hgap'.flush_iff, hminus, not_false_eq_true, and_true]

/-! ## A string and an index -/

def bracketAt (line column : Nat) : Token := ⟨.mark .openBracket, "[", ⟨line, column⟩⟩

/-- The tokens of `0]` at the end of a source. -/
def zeroIndex (line column : Nat) : List Token :=
  [⟨.number 0, "0", ⟨line, column⟩⟩, ⟨.mark .closeBracket, "]", ⟨line, column + 1⟩⟩,
    ⟨.eof, "", ⟨line, column + 2⟩⟩]

/-- A string with a character beyond ASCII. -/
def accented : Token := ⟨.string "é", "'é'", ⟨1, 7⟩⟩

theorem adjacent_iff_nothing_between_index :
    tokenize "print 'é'[0]" =
      .ok ([⟨.keyword .print, "print", ⟨1, 1⟩⟩] ++ accented :: bracketAt 1 10 :: zeroIndex 1 11) ∧
    Lexer.Between "print 'é'[0]".toList accented (bracketAt 1 10) [] ∧
    Cursor.adjacent ⟨some accented, bracketAt 1 10, zeroIndex 1 11, 0⟩ := by
  have htokens : tokenize "print 'é'[0]" =
      .ok ([⟨.keyword .print, "print", ⟨1, 1⟩⟩] ++ accented :: bracketAt 1 10 :: zeroIndex 1 11) :=
    Lexer.tokenize_of_toOption (by decide +kernel)
  have hbetween : Lexer.Between "print 'é'[0]".toList accented (bracketAt 1 10) [] :=
    ⟨"print ".toList, "0]".toList, by decide +kernel, by decide +kernel, by decide +kernel⟩
  obtain ⟨gap, -, hunique, -, hcursor⟩ := adjacent_iff_nothing_between htokens
  obtain rfl := hunique [] hbetween
  exact ⟨htokens, hbetween, (hcursor _ rfl rfl rfl).1.mpr ⟨rfl, by decide +kernel⟩⟩

/-- A string that goes on over a line end. -/
def spanning : Token := ⟨.string "a\nb", "\"a\nb\"", ⟨1, 10⟩⟩

def spanningTokens : List Token :=
  [⟨.keyword .set, "set", ⟨1, 1⟩⟩, ⟨.variable "x", "$x", ⟨1, 5⟩⟩, ⟨.mark .equals, "=", ⟨1, 8⟩⟩,
    spanning, bracketAt 2 3] ++ zeroIndex 2 4

/-- The `[` right after such a string is not adjacent to it and cannot be read. -/
theorem spanning_string_not_adjacent :
    tokenize "set $x = \"a\nb\"[0]" = .ok spanningTokens ∧
    Lexer.Between "set $x = \"a\nb\"[0]".toList spanning (bracketAt 2 3) [] ∧
    Cursor.adjacent ⟨some spanning, bracketAt 2 3, zeroIndex 2 4, 0⟩ = false ∧
    parse spanningTokens = .error ⟨.unexpected (.token "[") (.wanting .statementEnd), ⟨2, 3⟩⟩ := by
  refine ⟨Lexer.tokenize_of_toOption (by decide +kernel), ?_, by decide +kernel, rfl⟩
  exact ⟨"set $x = ".toList, "0]".toList, by decide +kernel, by decide +kernel, by decide +kernel⟩

end DeskScript
