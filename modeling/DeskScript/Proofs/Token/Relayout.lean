import DeskScript.Proofs.Token.Literal

/-!
# Tokens survive another layout

The lexemes of a source, written one after the other with a space behind each, are read as the
same tokens again. Each lexeme is read to its end and not further, since a space goes on no token:

    TokenText (c :: cs) kind → scan c (cs ++ ' ' :: rest) = .ok (.token kind, cs.length)

A line break is read as a token only after a token that is none itself. The tokens of a source
keep to that (`BreaksApart`), and so do they in any layout.
-/

namespace DeskScript

/-- What a token is apart from its place. -/
def Token.content (t : Token) : TokenKind × String := (t.kind, t.lexeme)

namespace Lexer

/-! ## One lexeme and a space -/

theorem takeWhile_space {p : Char → Bool} (hspace : p ' ' = false) {l : List Char}
    (hl : ∀ d ∈ l, p d) (rest : List Char) :
    (l ++ ' ' :: rest).takeWhile p = l ∧ (l ++ ' ' :: rest).dropWhile p = ' ' :: rest := by
  rw [List.takeWhile_append_of_pos hl, List.dropWhile_append_of_pos hl]
  simp [hspace]

theorem scan_wordlike {c : Char} (hc : isNameChar c) (cs : List Char) :
    scan c cs = wordlike c cs := by
  unfold scan
  -- none of the characters that `scan` knows is one of a name
  split <;> try cases hc
  rfl

theorem isNameChar_of_isDigit {c : Char} (hc : Number.isDigit c) : isNameChar c := by
  have hdigit : c.isDigit = true := hc
  simp [isNameChar, Char.isAlphanum, hdigit]

theorem numberText_space {l : List Char} (h : DecimalText l) (rest : List Char) :
    numberText (l ++ ' ' :: rest) = l := by
  obtain ⟨whole, frac, -, hwhole, rfl | ⟨hne, hfrac, rfl⟩⟩ := h
  · obtain ⟨htake, hdrop⟩ := takeWhile_space (by rfl) hwhole rest
    simp only [numberText, htake, hdrop]
    cases rest <;> rfl
  · obtain ⟨d, ds, rfl⟩ := List.exists_cons_of_ne_nil hne
    have hd : Number.isDigit d := hfrac d List.mem_cons_self
    have hpoint : Number.isDigit '.' = false := rfl
    have htake : (whole ++ '.' :: (d :: ds) ++ ' ' :: rest).takeWhile Number.isDigit = whole := by
      rw [List.append_assoc, List.takeWhile_append_of_pos hwhole]
      simp [hpoint]
    have hdrop : (whole ++ '.' :: (d :: ds) ++ ' ' :: rest).dropWhile Number.isDigit =
        '.' :: d :: (ds ++ ' ' :: rest) := by
      rw [List.append_assoc, List.dropWhile_append_of_pos hwhole]
      simp [hpoint]
    simp only [numberText, htake, hdrop, hd, if_true]
    congr 2
    exact (takeWhile_space (by rfl) hfrac rest).1

theorem wordlike_number_space {c : Char} {cs : List Char} (h : DecimalText (c :: cs))
    (hc : Number.isDigit c) (rest : List Char) :
    wordlike c (cs ++ ' ' :: rest) =
      .ok (.token (.number ((Number.readDecimal? (c :: cs)).getD 0)), cs.length) := by
  have hnumber : numberText (c :: (cs ++ ' ' :: rest)) = c :: cs := numberText_space h rest
  simp [wordlike, hc, hnumber]

theorem isDigit_of_isNameStart {c : Char} (hc : isNameStart c) : Number.isDigit c = false := by
  have hupper (h : c.isUpper) : 'A'.val ≤ c.val := (of_decide_eq_true h).1
  have hlower (h : c.isLower) : 'a'.val ≤ c.val := of_decide_eq_true (Bool.and_eq_true_iff.mp h).1
  -- letters and `_` come after the digits
  have hafter : '9'.val < c.val := by
    rcases (Bool.or_eq_true _ _).mp hc with halpha | hscore
    · rcases (Bool.or_eq_true _ _).mp halpha with h | h
      · exact Nat.lt_of_lt_of_le (by decide) (hupper h)
      · exact Nat.lt_of_lt_of_le (by decide) (hlower h)
    · rw [beq_iff_eq.mp hscore]
      decide
  rw [Number.isDigit, Bool.and_eq_false_iff]
  exact .inr (decide_eq_false (Char.not_le.mpr hafter))

theorem wordlike_word_space {c : Char} {cs : List Char} (hc : isNameStart c)
    (hcs : ∀ d ∈ cs, isNameChar d) (rest : List Char) :
    wordlike c (cs ++ ' ' :: rest) =
      .ok (.token (wordKind (String.ofList (c :: cs))), cs.length) := by
  have hdigit := isDigit_of_isNameStart hc
  simp [wordlike, hdigit, hc, (takeWhile_space (by rfl) hcs rest).1]

theorem reference_space {x : List Char} (hne : x ≠ []) (hx : ∀ d ∈ x, isNameChar d)
    (rest : List Char) :
    reference (x ++ ' ' :: rest) = .ok (.token (.variable (String.ofList x)), x.length) := by
  simp [reference, (takeWhile_space (by rfl) hx rest).1, hne]

theorem scan_mark_space (m : Mark) (rest : List Char) :
    ∃ c cs, m.text.toList = c :: cs ∧
      scan c (cs ++ ' ' :: rest) = .ok (.token (.mark m), cs.length) := by
  cases m <;> exact ⟨_, _, rfl, rfl⟩

/-- The text of a token is read to its end, if a space follows. -/
theorem scan_space {l : List Char} {kind : TokenKind} (h : TokenText l kind)
    (hbreak : kind ≠ .newline) (heof : kind ≠ .eof) (rest : List Char) :
    ∃ c cs, l = c :: cs ∧ scan c (cs ++ ' ' :: rest) = .ok (.token kind, cs.length) := by
  have hquoted (h : QuotedText l kind) :
      ∃ c cs, l = c :: cs ∧ scan c (cs ++ ' ' :: rest) = .ok (.token kind, cs.length) := by
    obtain ⟨quote, body, hq, hbody, rfl, rfl⟩ := h
    refine ⟨quote, body ++ [quote], rfl, ?_⟩
    rw [List.append_assoc]
    simpa using scan_literal hq hbody (' ' :: rest)
  have hword (hl : WordText l) (hkind : wordKind (String.ofList l) = kind) :
      ∃ c cs, l = c :: cs ∧ scan c (cs ++ ' ' :: rest) = .ok (.token kind, cs.length) := by
    have hchars := hl.isNameChar
    obtain ⟨c, cs, rfl, hc, hcs⟩ := hl
    refine ⟨c, cs, rfl, ?_⟩
    rw [scan_wordlike (hchars c List.mem_cons_self), wordlike_word_space hc hcs, hkind]
  match kind with
  | .number x =>
    obtain ⟨hdecimal, rfl⟩ := h
    obtain ⟨c, cs, rfl, hc⟩ : ∃ c cs, l = c :: cs ∧ Number.isDigit c := by
      obtain ⟨whole, frac, hne, hwhole, hl⟩ := hdecimal
      obtain ⟨c, cs, rfl⟩ := List.exists_cons_of_ne_nil hne
      have hc : Number.isDigit c := hwhole c List.mem_cons_self
      rcases hl with rfl | ⟨-, -, rfl⟩ <;> exact ⟨c, _, rfl, hc⟩
    refine ⟨c, cs, rfl, ?_⟩
    rw [scan_wordlike (isNameChar_of_isDigit hc), wordlike_number_space hdecimal hc]
  | .ident x =>
    obtain ⟨hl, rfl, hnone⟩ := h
    exact hword hl (by simp [wordKind, hnone])
  | .keyword k => exact hword h.1 (by simp [wordKind, h.2])
  | .variable x =>
    obtain ⟨rfl, hne, hx⟩ := h
    refine ⟨'$', x.toList, rfl, ?_⟩
    have hscan : scan '$' (x.toList ++ ' ' :: rest) = reference (x.toList ++ ' ' :: rest) := rfl
    rw [hscan, reference_space hne hx, String.ofList_toList]
  | .mark m =>
    obtain rfl := h
    exact scan_mark_space m rest
  | .newline => exact absurd rfl hbreak
  | .eof => exact absurd rfl heof
  | .string s => exact hquoted h
  | .template parts => exact hquoted h

/-! ## Line breaks -/

theorem BreaksApart.congr {ts us : List Token} (hkinds : us.map Token.kind = ts.map Token.kind)
    (h : BreaksApart ts) : BreaksApart us := by
  refine ⟨fun u hu hnewline => ?_, fun before a b after hus ha hb => ?_⟩
  · obtain ⟨rest, rfl⟩ := List.head?_eq_some_iff.mp hu
    obtain ⟨t, ts, rfl, ht, -⟩ := List.map_eq_cons_iff.mp hkinds.symm
    exact h.1 t rfl (ht.trans hnewline)
  · rw [hus, List.map_append, List.map_cons, List.map_cons] at hkinds
    obtain ⟨before', rest, rfl, -, hrest⟩ := List.map_eq_append_iff.mp hkinds.symm
    obtain ⟨a', rest, rfl, ha', hrest⟩ := List.map_eq_cons_iff.mp hrest
    obtain ⟨b', after', rfl, hb', -⟩ := List.map_eq_cons_iff.mp hrest
    exact h.2 before' a' b' after' rfl (ha'.trans ha) (hb'.trans hb)

theorem BreaksApart.left {ts us : List Token} (h : BreaksApart (ts ++ us)) : BreaksApart ts := by
  refine ⟨fun t ht => ?_, fun before a b after hts => ?_⟩
  · exact h.1 t (by simp [Option.mem_def.mp ht])
  · exact h.2 before a b (after ++ us) (by simp [hts])

theorem BreaksApart.before {ts us : List Token} {t : Token} (h : BreaksApart (ts ++ t :: us))
    (ht : t.kind = .newline) : ∃ u ∈ ts.getLast?, u.kind ≠ .newline := by
  rcases List.eq_nil_or_concat ts with rfl | ⟨init, u, rfl⟩
  · exact absurd ht (h.1 t rfl)
  · exact ⟨u, by simp, fun hu => h.2 init u t us (by simp) hu ht⟩

/-! ## All lexemes -/

/-- The lexemes with a space behind each. -/
def spacedOut (ts : List Token) : List Char := ts.flatMap fun t => t.lexeme.toList ++ [' ']

/-- A token of a source, found again in front of a space. -/
theorem tokensFrom_step {read : List Token} {pos : Position} {t : Token}
    (htext : TokenText t.lexeme.toList t.kind) (heof : t.kind ≠ .eof)
    (hbreak : t.kind = .newline → ∃ u ∈ read.head?, u.kind ≠ .newline) (rest : List Char) :
    tokensFrom read pos (t.lexeme.toList ++ ' ' :: rest) =
      tokensFrom (⟨t.kind, t.lexeme, pos⟩ :: read) (pos.past (t.lexeme.toList ++ [' '])) rest := by
  have hspace (read : List Token) (pos : Position) :
      tokensFrom read pos (' ' :: rest) = tokensFrom read (pos.past [' ']) rest := by
    rw [tokensFrom]
    rfl
  -- what is scanned is the lexeme, and it becomes a token
  suffices h : ∃ c cs piece, t.lexeme.toList = c :: cs ∧
      scan c (cs ++ ' ' :: rest) = .ok (piece, cs.length) ∧
      record read piece t.lexeme.toList pos = ⟨t.kind, t.lexeme, pos⟩ :: read by
    obtain ⟨c, cs, piece, hl, hscan, hrecord⟩ := h
    rw [hl] at hrecord
    rw [hl, List.cons_append, tokensFrom, hscan]
    simp only [List.take_left, List.drop_left, hrecord]
    rw [hspace, ← Position.past_append]
  by_cases hk : t.kind = .newline
  · obtain ⟨u, hu, hne⟩ := hbreak hk
    obtain ⟨us, rfl⟩ := List.head?_eq_some_iff.mp hu
    rw [hk] at htext
    have hrecord : record (u :: us) .separator t.lexeme.toList pos =
        ⟨t.kind, t.lexeme, pos⟩ :: u :: us := by
      simp [record, hne, hk]
    rcases htext with hl | hl
    · exact ⟨'\n', [], .separator, hl, rfl, hrecord⟩
    · exact ⟨';', [], .separator, hl, rfl, hrecord⟩
  · obtain ⟨c, cs, hl, hscan⟩ := scan_space htext hk heof rest
    exact ⟨c, cs, _, hl, hscan, by simp [record]⟩

theorem tokensFrom_spacedOut (read : List Token) {ts : List Token} (pos : Position)
    (htexts : ∀ t ∈ ts, TokenText t.lexeme.toList t.kind ∧ t.kind ≠ .eof)
    (hapart : BreaksApart (read.reverse ++ ts)) :
    ∃ us pos', tokensFrom read pos (spacedOut ts) = .ok (us ++ [⟨.eof, "", pos'⟩]) ∧
      us.map Token.content = (read.reverse ++ ts).map Token.content := by
  induction ts generalizing read pos with
  | nil =>
    refine ⟨read.reverse, pos, ?_, by simp⟩
    rw [spacedOut, List.flatMap_nil, tokensFrom, List.reverse_cons]
  | cons t ts ih =>
    obtain ⟨⟨htext, heof⟩, htexts⟩ := List.forall_mem_cons.mp htexts
    have hbreak (hk : t.kind = .newline) : ∃ u ∈ read.head?, u.kind ≠ .newline := by
      simpa using hapart.before hk
    have hagain : BreaksApart ((⟨t.kind, t.lexeme, pos⟩ :: read).reverse ++ ts) :=
      hapart.congr (by simp)
    obtain ⟨us, pos', hus, hcontent⟩ := ih _ (pos.past (t.lexeme.toList ++ [' '])) htexts hagain
    refine ⟨us, pos', ?_, ?_⟩
    · rw [← hus, ← tokensFrom_step htext heof hbreak]
      simp [spacedOut]
    · simp [hcontent, Token.content]

theorem intercalate_spacedOut (ts : List Token) (t : Token) (ht : t.lexeme = "") :
    (String.intercalate " " ((ts ++ [t]).map Token.lexeme)).toList = spacedOut ts := by
  rw [String.toList_intercalate]
  induction ts with
  | nil => simp [ht, spacedOut]
  | cons u us ih =>
    rw [List.cons_append, List.map_cons, List.map_cons,
      List.intercalate_cons_of_ne_nil (by simp), ih]
    simp [spacedOut]

end Lexer

/-- **Tokens survive another layout**: the lexemes of a source, joined by single spaces, are read
as tokens of the same kinds with the same lexemes. -/
theorem tokens_survive_relayout {source : String} {ts : List Token} (h : tokenize source = .ok ts) :
    ∃ us, tokenize (String.intercalate " " (ts.map Token.lexeme)) = .ok us ∧
      us.map Token.kind = ts.map Token.kind ∧ us.map Token.lexeme = ts.map Token.lexeme := by
  have haccounts := Lexer.tokensFrom_accounts (Lexer.scanning_start source.toList)
  have htokens : Lexer.tokensFrom [] .start source.toList = .ok ts := h
  simp only [Lexer.written, List.flatMap_nil, List.nil_append, htokens] at haccounts
  obtain ⟨-, -, -, -, hapart, init, last, rfl, hlast, hinit⟩ := haccounts
  obtain ⟨htexts, -⟩ := Lexer.tokenText_of_tokenize h
  have hempty : last.lexeme = "" := by
    have htext := htexts last (by simp)
    rw [hlast] at htext
    simpa [Lexer.TokenText] using htext
  have hinit' : ∀ t ∈ init, Lexer.TokenText t.lexeme.toList t.kind ∧ t.kind ≠ .eof :=
    fun t ht => ⟨htexts t (by simp [ht]), hinit t ht⟩
  obtain ⟨us, pos, hus, hcontent⟩ := Lexer.tokensFrom_spacedOut [] .start hinit' hapart.left
  have hkinds := congrArg (List.map Prod.fst) hcontent
  have hlexemes := congrArg (List.map Prod.snd) hcontent
  simp only [List.map_map] at hkinds hlexemes
  refine ⟨us ++ [⟨.eof, "", pos⟩], ?_, ?_, ?_⟩
  · rw [tokenize, Lexer.intercalate_spacedOut init last hempty, hus]
  · rw [List.map_append, List.map_append]
    exact congrArg₂ (· ++ ·) hkinds (by simp [hlast])
  · rw [List.map_append, List.map_append]
    exact congrArg₂ (· ++ ·) hlexemes (by simp [hempty])

/-- The tokens of a source with a string over two lines, a comment and three separators in a row. -/
def scatteredTokens : List Token :=
  [⟨.ident "f", "f", ⟨1, 1⟩⟩, ⟨.mark .openParen, "(", ⟨1, 2⟩⟩, ⟨.number 3.5, "3.5", ⟨1, 3⟩⟩,
    ⟨.mark .dot, ".", ⟨1, 6⟩⟩, ⟨.ident "x", "x", ⟨1, 7⟩⟩, ⟨.mark .closeParen, ")", ⟨1, 8⟩⟩,
    ⟨.mark .doubleEquals, "==", ⟨1, 9⟩⟩, ⟨.string "a#\nb", "'a#\nb'", ⟨1, 11⟩⟩,
    ⟨.newline, ";", ⟨2, 3⟩⟩, ⟨.mark .bang, "!", ⟨4, 1⟩⟩, ⟨.variable "z", "$z", ⟨4, 2⟩⟩,
    ⟨.eof, "", ⟨4, 4⟩⟩]

theorem tokens_survive_relayout_scattered :
    tokenize "f(3.5.x)=='a#\nb';;\n# c\n!$z" = .ok scatteredTokens ∧
    ∃ us, tokenize "f ( 3.5 . x ) == 'a#\nb' ; ! $z " = .ok us ∧
      us.map Token.kind = scatteredTokens.map Token.kind ∧
      us.map Token.lexeme = scatteredTokens.map Token.lexeme := by
  have htokens : tokenize "f(3.5.x)=='a#\nb';;\n# c\n!$z" = .ok scatteredTokens :=
    Lexer.tokenize_of_toOption (by decide +kernel)
  have hjoined : String.intercalate " " (scatteredTokens.map Token.lexeme) =
      "f ( 3.5 . x ) == 'a#\nb' ; ! $z " := by decide +kernel
  exact ⟨htokens, hjoined ▸ tokens_survive_relayout htokens⟩

end DeskScript
