import DeskScript.Program.Cursor
import DeskScript.Token.Lexer

/-!
# The texts of tokens

What each kind of token looks like in the source, said without the lexer, and what
the lexer does at the start of a text: it takes a filler, a separator or the text
of a token, and it fails only where no token begins.

    scan c cs = .ok (piece, n) → piece.Covers (c :: cs.take n) (cs.drop n)      (scan_covers)
    scan c cs = .error cause → Stuck cause (c :: cs)                             (scan_stuck)
-/

namespace DeskScript

namespace Lexer

/-! ## Texts -/

/-- What stands between the quotes of a string. A backslash takes the next character along. -/
inductive StringBody (quote : Char) : List Char → Prop
  | nil : StringBody quote []
  | plain {c : Char} {cs : List Char} :
      c ≠ quote → c ≠ '\\' → StringBody quote cs → StringBody quote (c :: cs)
  | escaped {c : Char} {cs : List Char} : StringBody quote cs → StringBody quote ('\\' :: c :: cs)

/-- Digits, perhaps with a point and digits after them. -/
def DecimalText (l : List Char) : Prop :=
  ∃ whole frac : List Char, whole ≠ [] ∧ (∀ d ∈ whole, Number.isDigit d) ∧
    (l = whole ∨ frac ≠ [] ∧ (∀ d ∈ frac, Number.isDigit d) ∧ l = whole ++ '.' :: frac)

/-- A letter or `_`, then letters, digits and `_`. -/
def WordText (l : List Char) : Prop :=
  ∃ c cs, l = c :: cs ∧ isNameStart c ∧ ∀ d ∈ cs, isNameChar d

/-- A string in its quotes. -/
def QuotedText (l : List Char) (kind : TokenKind) : Prop :=
  ∃ quote body, (quote = '"' ∨ quote = '\'') ∧ StringBody quote body ∧
    l = quote :: (body ++ [quote]) ∧ kind = stringKind (quote == '"') body

/-- `l` is the text of a token of this kind. -/
def TokenText (l : List Char) : TokenKind → Prop
  | .number x => DecimalText l ∧ x = (Number.readDecimal? l).getD 0
  | .ident x => WordText l ∧ x.toList = l ∧ Keyword.ofWord? x = none
  | .keyword k => WordText l ∧ Keyword.ofWord? (String.ofList l) = some k
  | .variable x => l = '$' :: x.toList ∧ x.toList ≠ [] ∧ ∀ d ∈ x.toList, isNameChar d
  | .mark m => l = m.text.toList
  | .newline => l = ['\n'] ∨ l = [';']
  | .eof => l = []
  | .string s => QuotedText l (.string s)
  | .template parts => QuotedText l (.template parts)

theorem TokenText.ne_nil {l : List Char} {kind : TokenKind} (h : TokenText l kind)
    (hkind : kind ≠ .eof) : l ≠ [] := by
  match kind with
  | .number x =>
    obtain ⟨⟨whole, frac, hne, -, rfl | ⟨-, -, rfl⟩⟩, -⟩ := h
    · exact hne
    · simp
  | .ident x =>
    obtain ⟨⟨c, cs, rfl, -⟩, -⟩ := h
    simp
  | .keyword k =>
    obtain ⟨⟨c, cs, rfl, -⟩, -⟩ := h
    simp
  | .variable x =>
    obtain ⟨rfl, -⟩ := h
    simp
  | .mark m =>
    obtain rfl := h
    cases m <;> simp [Mark.text]
  | .newline => rcases h with rfl | rfl <;> simp
  | .eof => exact absurd rfl hkind
  | .string s =>
    obtain ⟨quote, body, -, -, rfl, -⟩ := h
    simp
  | .template parts =>
    obtain ⟨quote, body, -, -, rfl, -⟩ := h
    simp

/-- A blank, or a comment up to the end of its line; `rest` is what follows. -/
inductive Filler : List Char → List Char → Prop
  | blank {c : Char} {rest : List Char} : c ∈ [' ', '\t', '\r'] → Filler [c] rest
  | comment {body rest : List Char} :
      '\n' ∉ body → (∀ c ∈ rest.head?, c = '\n') → Filler ('#' :: body) rest

/-- `l` is the text of a piece, and `rest` follows it. -/
def Piece.Covers (l rest : List Char) : Piece → Prop
  | .skip => Filler l rest
  | .separator => ∃ c ∈ ['\n', ';'], l = [c]
  | .token kind => TokenText l kind ∧ kind ≠ .newline ∧ kind ≠ .eof

/-- The characters that something can begin with. -/
def Known (c : Char) : Prop :=
  c ∈ [' ', '\t', '\r', '#', '\n', ';', '(', ')', '\x7b', '\x7d', '[', ']', ',', '.', ':', '+', '-', '*',
    '/', '%', '=', '!', '<', '>', '&', '|', '"', '\'', '$'] ∨ isNameChar c

/-- Why nothing can be read from the start of a text. -/
inductive Stuck : LexCause → List Char → Prop
  | unknown {c : Char} {cs : List Char} : ¬ Known c → Stuck (.unexpected c) (c :: cs)
  | undoubled {c : Char} {cs : List Char} :
      c = '&' ∨ c = '|' → cs.head? ≠ some c → Stuck (.unexpected c) (c :: cs)
  | nameless {cs : List Char} : (∀ d ∈ cs.head?, ¬ isNameChar d) → Stuck .nameMissing ('$' :: cs)
  | unclosed {quote : Char} {cs : List Char} : quote = '"' ∨ quote = '\'' →
      (∀ body rest, cs = body ++ quote :: rest → ¬ StringBody quote body) →
      Stuck .unterminated (quote :: cs)

/-! ## Strings -/

theorem untilQuote_some {quote : Char} {cs body : List Char} (h : untilQuote quote cs = some body) :
    StringBody quote body ∧ ∃ rest, cs = body ++ quote :: rest := by
  fun_induction untilQuote quote cs generalizing body with
  | case1 => cases h
  | case2 c cs ih =>
    obtain ⟨body, hbody, rfl⟩ := Option.map_eq_some_iff.mp h
    obtain ⟨hb, rest, rfl⟩ := ih hbody
    exact ⟨.escaped hb, rest, rfl⟩
  | case3 c cs _ hc =>
    obtain rfl := Option.some.inj h
    exact ⟨.nil, cs, by simpa using hc⟩
  | case4 => cases h
  | case5 c cs _ hc hb ih =>
    obtain ⟨body, hbody, rfl⟩ := Option.map_eq_some_iff.mp h
    obtain ⟨hrest, rest, rfl⟩ := ih hbody
    exact ⟨.plain (by simpa using hc) (by simpa using hb) hrest, rest, rfl⟩

theorem untilQuote_append {quote : Char} (hq : quote ≠ '\\') {body : List Char}
    (h : StringBody quote body) (rest : List Char) :
    untilQuote quote (body ++ quote :: rest) = some body := by
  induction h with
  | nil => cases rest <;> simp [untilQuote, hq]
  | @plain c cs hc hb _ ih =>
    rw [List.cons_append, untilQuote]
    · simp [hc, hb, ih]
    · intro d ds hd
      exact absurd hd hb
  | escaped _ ih => simp [untilQuote, ih]

theorem stringKind_text (quote : Char) (hq : quote = '"' ∨ quote = '\'') {body : List Char}
    (hbody : StringBody quote body) (rest : List Char) :
    (Piece.token (stringKind (quote == '"') body)).Covers (quote :: (body ++ [quote])) rest := by
  have htext : QuotedText (quote :: (body ++ [quote])) (stringKind (quote == '"') body) :=
    ⟨quote, body, hq, hbody, rfl, rfl⟩
  revert htext
  unfold stringKind
  split <;> exact fun htext => ⟨htext, by simp, by simp⟩

theorem quoted_covers {quote : Char} (hq : quote = '"' ∨ quote = '\'') {cs : List Char} {p : Piece}
    {n : Nat} (h : quoted quote cs = .ok (p, n)) :
    p.Covers (quote :: cs.take n) (cs.drop n) := by
  unfold quoted at h
  split at h
  · next body hbody =>
    obtain ⟨rfl, rfl⟩ := Prod.mk.inj (Except.ok.inj h)
    obtain ⟨hb, rest, rfl⟩ := untilQuote_some hbody
    have htake : (body ++ quote :: rest).take (body.length + 1) = body ++ [quote] := by
      rw [List.take_append, List.take_of_length_le (Nat.le_succ _)]
      simp
    rw [htake]
    exact stringKind_text quote hq hb _
  · cases h

theorem quoted_stuck {quote : Char} (hq : quote = '"' ∨ quote = '\'') {cs : List Char}
    {cause : LexCause} (h : quoted quote cs = .error cause) : Stuck cause (quote :: cs) := by
  unfold quoted at h
  split at h
  · cases h
  · next hnone =>
    obtain rfl := Except.error.inj h
    refine .unclosed hq fun body rest hcs hbody => ?_
    have hne : quote ≠ '\\' := by rcases hq with rfl | rfl <;> decide
    rw [hcs, untilQuote_append hne hbody] at hnone
    cases hnone

/-! ## Names and numbers -/

theorem takeWhile_all {p : Char → Bool} {cs : List Char} {d : Char} (hd : d ∈ cs.takeWhile p) : p d :=
  List.all_eq_true.mp List.all_takeWhile d hd

theorem take_takeWhile (p : Char → Bool) (cs : List Char) :
    cs.take (cs.takeWhile p).length = cs.takeWhile p :=
  List.prefix_iff_eq_take.mp (List.takeWhile_prefix p) |>.symm

theorem reference_covers {cs : List Char} {p : Piece} {n : Nat} (h : reference cs = .ok (p, n)) :
    p.Covers ('$' :: cs.take n) (cs.drop n) := by
  unfold reference at h
  simp only at h
  split at h
  · cases h
  · next hne =>
    obtain ⟨rfl, rfl⟩ := Prod.mk.inj (Except.ok.inj h)
    rw [take_takeWhile]
    refine ⟨⟨by simp, by simpa using hne, fun d hd => ?_⟩, by simp, by simp⟩
    exact takeWhile_all (by simpa using hd)

theorem reference_stuck {cs : List Char} {cause : LexCause} (h : reference cs = .error cause) :
    Stuck cause ('$' :: cs) := by
  unfold reference at h
  simp only at h
  split at h
  · next hnil =>
    obtain rfl := Except.error.inj h
    refine .nameless fun d hd hname => ?_
    obtain ⟨ds, rfl⟩ := List.head?_eq_some_iff.mp hd
    simp [hname] at hnil
  · cases h

theorem numberText_decimal {c : Char} (hc : Number.isDigit c) (cs : List Char) :
    DecimalText (numberText (c :: cs)) ∧ ∃ l, numberText (c :: cs) = c :: l ∧ l <+: cs := by
  have hwhole : (c :: cs).takeWhile Number.isDigit = c :: cs.takeWhile Number.isDigit := by simp [hc]
  have hdigits : ∀ d ∈ c :: cs.takeWhile Number.isDigit, Number.isDigit d := fun d hd =>
    takeWhile_all (hwhole ▸ hd)
  have hplain : DecimalText (c :: cs.takeWhile Number.isDigit) :=
    ⟨_, [], by simp, hdigits, .inl rfl⟩
  have hdrop : (c :: cs).dropWhile Number.isDigit = cs.dropWhile Number.isDigit := by simp [hc]
  unfold numberText
  simp only [hwhole, hdrop]
  split
  · next d ds hrest =>
    split
    · next hd =>
      refine ⟨⟨_, _, by simp, hdigits, .inr ⟨by simp [hd], fun x hx => takeWhile_all hx, rfl⟩⟩, _, rfl, ?_⟩
      -- the point and the digits after it follow the whole part
      have hcs : cs.takeWhile Number.isDigit ++ '.' :: d :: ds = cs := by
        rw [← hrest, List.takeWhile_append_dropWhile]
      conv => rhs; rw [← hcs]
      exact (List.prefix_append_right_inj _).mpr (List.cons_prefix_cons.mpr ⟨rfl, List.takeWhile_prefix _⟩)
    · exact ⟨hplain, _, rfl, List.takeWhile_prefix _⟩
  · exact ⟨hplain, _, rfl, List.takeWhile_prefix _⟩

theorem wordlike_covers {c : Char} {cs : List Char} {p : Piece} {n : Nat}
    (h : wordlike c cs = .ok (p, n)) : p.Covers (c :: cs.take n) (cs.drop n) := by
  unfold wordlike at h
  simp only at h
  split at h
  · next hc =>
    obtain ⟨rfl, rfl⟩ := Prod.mk.inj (Except.ok.inj h)
    obtain ⟨htext, l, hl, hprefix⟩ := numberText_decimal hc cs
    have htake : c :: cs.take (l.length + 1 - 1) = c :: l := by
      rw [Nat.add_sub_cancel, ← List.prefix_iff_eq_take.mp hprefix]
    rw [hl, List.length_cons, htake, ← hl]
    exact ⟨⟨htext, rfl⟩, by simp, by simp⟩
  · split at h
    · next hc =>
      obtain ⟨rfl, rfl⟩ := Prod.mk.inj (Except.ok.inj h)
      have hword : WordText (c :: cs.takeWhile isNameChar) :=
        ⟨c, _, rfl, hc, fun d hd => takeWhile_all hd⟩
      rw [List.length_cons, Nat.add_sub_cancel, take_takeWhile]
      unfold wordKind
      split
      · next k hk => exact ⟨⟨hword, hk⟩, by simp, by simp⟩
      · next hk => exact ⟨⟨hword, by simp, hk⟩, by simp, by simp⟩
    · cases h

/-! ## Scanning -/

theorem single_covers {c : Char} {m : Mark} (hm : m.text.toList = [c]) {cs : List Char}
    {p : Piece} {n : Nat} (h : single m = .ok (p, n)) : p.Covers (c :: cs.take n) (cs.drop n) := by
  obtain ⟨rfl, rfl⟩ := Prod.mk.inj (Except.ok.inj h)
  exact ⟨hm.symm, by simp, by simp⟩

theorem either_covers {c d : Char} {m m' : Mark} (hm : m.text.toList = [c, d])
    (hm' : m'.text.toList = [c]) {cs : List Char} {p : Piece} {n : Nat}
    (h : either cs d m m' = (p, n)) : p.Covers (c :: cs.take n) (cs.drop n) := by
  unfold either at h
  split at h
  · next hd =>
    obtain ⟨rfl, rfl⟩ := Prod.mk.inj h
    obtain ⟨ds, rfl⟩ := List.head?_eq_some_iff.mp (beq_iff_eq.mp hd)
    exact ⟨hm.symm, by simp, by simp⟩
  · obtain ⟨rfl, rfl⟩ := Prod.mk.inj h
    exact ⟨hm'.symm, by simp, by simp⟩

theorem doubled_covers {c : Char} {m : Mark} (hm : m.text.toList = [c, c]) {cs : List Char}
    {p : Piece} {n : Nat} (h : doubled c cs m = .ok (p, n)) :
    p.Covers (c :: cs.take n) (cs.drop n) := by
  unfold doubled at h
  split at h
  · next hc =>
    obtain ⟨rfl, rfl⟩ := Prod.mk.inj (Except.ok.inj h)
    obtain ⟨ds, rfl⟩ := List.head?_eq_some_iff.mp (beq_iff_eq.mp hc)
    exact ⟨hm.symm, by simp, by simp⟩
  · cases h

theorem doubled_stuck {c : Char} (hc : c = '&' ∨ c = '|') {m : Mark} {cs : List Char}
    {cause : LexCause} (h : doubled c cs m = .error cause) : Stuck cause (c :: cs) := by
  unfold doubled at h
  split at h
  · cases h
  · next hne =>
    obtain rfl := Except.error.inj h
    exact .undoubled hc (by simpa using hne)

theorem comment_covers (cs : List Char) :
    Piece.skip.Covers ('#' :: cs.take (cs.takeWhile (· != '\n')).length)
      (cs.drop (cs.takeWhile (· != '\n')).length) := by
  rw [take_takeWhile]
  refine .comment (fun hmem => ?_) fun c hc => ?_
  · simpa using takeWhile_all hmem
  · have hdrop : cs.drop (cs.takeWhile (· != '\n')).length = cs.dropWhile (· != '\n') := by
      have hsplit : cs.takeWhile (· != '\n') ++ cs.dropWhile (· != '\n') = cs :=
        List.takeWhile_append_dropWhile
      exact (congrArg (List.drop _) hsplit).symm.trans (List.drop_left' rfl)
    have hhead := List.head?_dropWhile_not (· != '\n') cs
    rw [hdrop] at hc
    rw [Option.mem_def.mp hc] at hhead
    simpa using hhead

/-- What is scanned is the text of a piece. -/
theorem scan_covers {c : Char} {cs : List Char} {p : Piece} {n : Nat}
    (h : scan c cs = .ok (p, n)) : p.Covers (c :: cs.take n) (cs.drop n) := by
  unfold scan at h
  split at h
  · obtain ⟨rfl, rfl⟩ := Prod.mk.inj (Except.ok.inj h)
    exact .blank (by simp)
  · obtain ⟨rfl, rfl⟩ := Prod.mk.inj (Except.ok.inj h)
    exact .blank (by simp)
  · obtain ⟨rfl, rfl⟩ := Prod.mk.inj (Except.ok.inj h)
    exact .blank (by simp)
  · obtain ⟨rfl, rfl⟩ := Prod.mk.inj (Except.ok.inj h)
    exact comment_covers cs
  · obtain ⟨rfl, rfl⟩ := Prod.mk.inj (Except.ok.inj h)
    exact ⟨'\n', by simp, rfl⟩
  · obtain ⟨rfl, rfl⟩ := Prod.mk.inj (Except.ok.inj h)
    exact ⟨';', by simp, rfl⟩
  iterate 14 exact single_covers (by rfl) h
  iterate 4 exact either_covers (by rfl) (by rfl) (Except.ok.inj h)
  · exact doubled_covers (by rfl) h
  · exact doubled_covers (by rfl) h
  · exact quoted_covers (.inl rfl) h
  · exact quoted_covers (.inr rfl) h
  · exact reference_covers h
  · exact wordlike_covers h

theorem wordlike_stuck {c : Char} {cs : List Char} {cause : LexCause}
    (hc : c ∉ [' ', '\t', '\r', '#', '\n', ';', '(', ')', '\x7b', '\x7d', '[', ']', ',', '.', ':', '+',
      '-', '*', '/', '%', '=', '!', '<', '>', '&', '|', '"', '\'', '$'])
    (h : wordlike c cs = .error cause) : Stuck cause (c :: cs) := by
  unfold wordlike at h
  simp only at h
  split at h
  · cases h
  · next hdigit =>
    split at h
    · cases h
    · next hname =>
      obtain rfl := Except.error.inj h
      refine .unknown ?_
      rintro (hmem | hchar)
      · exact hc hmem
      · have hdigit' : c.isDigit = false := Bool.eq_false_iff.mpr hdigit
        simp_all [isNameChar, isNameStart, Char.isAlphanum]

/-- The scanner fails only where nothing begins. -/
theorem scan_stuck {c : Char} {cs : List Char} {cause : LexCause} (h : scan c cs = .error cause) :
    Stuck cause (c :: cs) := by
  unfold scan at h
  split at h
  iterate 24 cases h
  · exact doubled_stuck (.inl rfl) h
  · exact doubled_stuck (.inr rfl) h
  · exact quoted_stuck (.inl rfl) h
  · exact quoted_stuck (.inr rfl) h
  · exact reference_stuck h
  · exact wordlike_stuck (by simp_all) h

end Lexer

end DeskScript
