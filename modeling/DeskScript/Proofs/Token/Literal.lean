import Mathlib.Data.List.Chain
import DeskScript.Proofs.Token.Lossless

/-!
# Every text can be written as a literal

A literal is a body between two quotes. The body of a text has a backslash in front of each of
its special characters, and that of a template has also its variables, each after a `$`:

    elements i (escape quote s ++ rest) = s.map .char ++ elements i rest        (elements_escape)

where `i` says whether the quote lets variables in. Read back, a body gives the elements of its
parts, and the elements joined give the parts (`joinElements_elements`) as long as no text is empty
or stands next to another one.
-/

namespace DeskScript

namespace Lexer

/-! ## Writing literals -/

/-- The characters that have a backslash in front of them between such quotes. -/
def special (quote : Char) : List Char := if quote = '"' then ['\\', '"', '$'] else ['\\', '\'']

def escape (quote : Char) (s : List Char) : List Char :=
  s.flatMap fun c => if c ∈ special quote then ['\\', c] else [c]

def literal (quote : Char) (body : List Char) : String := String.ofList (quote :: (body ++ [quote]))

/-- A text between such quotes. -/
def textLiteral (quote : Char) (s : String) : String := literal quote (escape quote s.toList)

def partBody : TextPart → List Char
  | .text s => escape '"' s.toList
  | .var x => '$' :: x.toList

/-- A template between double quotes. -/
def templateLiteral (parts : List TextPart) : String := literal '"' (parts.flatMap partBody)

/-- `q` may come right after `p`: texts are kept apart, and a text does not go on with the name of
the variable before it. -/
def Follows : TextPart → TextPart → Prop
  | .text _, .text _ => False
  | .var _, .text s => ∀ c ∈ s.toList.head?, ¬ isNameChar c
  | _, .var _ => True

/-- The parts of a template. -/
structure TemplateParts (parts : List TextPart) : Prop where
  hasVar : ∃ x, .var x ∈ parts
  texts : ∀ s, .text s ∈ parts → s ≠ ""
  names : ∀ x, .var x ∈ parts → WordText x.toList
  follows : parts.IsChain Follows

/-! ## Bodies -/

theorem escape_cons (quote c : Char) (s : List Char) :
    escape quote (c :: s) = (if c ∈ special quote then ['\\', c] else [c]) ++ escape quote s := rfl

theorem backslash_mem_special (quote : Char) : '\\' ∈ special quote := by
  unfold special
  split <;> simp

theorem quote_mem_special {quote : Char} (hq : quote = '"' ∨ quote = '\'') :
    quote ∈ special quote := by
  rcases hq with rfl | rfl <;> decide

theorem unescape_special {quote c : Char} (h : c ∈ special quote) : unescape c = [c] := by
  unfold special at h
  split at h <;> simp at h
  · rcases h with rfl | rfl | rfl <;> rfl
  · rcases h with rfl | rfl <;> rfl

theorem StringBody.append_escape {quote : Char} {rest : List Char} (h : StringBody quote rest)
    (hq : quote = '"' ∨ quote = '\'') (s : List Char) : StringBody quote (escape quote s ++ rest) := by
  induction s with
  | nil => exact h
  | cons c s ih =>
    rw [escape_cons]
    split
    · exact .escaped ih
    · next hc =>
      refine .plain ?_ ?_ ih
      · rintro rfl
        exact hc (quote_mem_special hq)
      · rintro rfl
        exact hc (backslash_mem_special quote)

theorem elements_plain {interpolate : Bool} {c : Char} {cs : List Char} (hb : c ≠ '\\')
    (hd : interpolate = true → c ≠ '$') :
    elements interpolate (c :: cs) = .char c :: elements interpolate cs := by
  rw [elements]
  · rw [if_neg]
    cases interpolate <;> simp_all
  · rintro d ds rfl -
    exact hb rfl

theorem elements_escape (quote : Char) (s rest : List Char) :
    elements (quote == '"') (escape quote s ++ rest) =
      s.map .char ++ elements (quote == '"') rest := by
  induction s with
  | nil => rfl
  | cons c s ih =>
    rw [escape_cons]
    split
    · next hc =>
      show elements _ ('\\' :: c :: (escape quote s ++ rest)) = _
      rw [elements, unescape_special hc, ih]
      rfl
    · next hc =>
      show elements _ (c :: (escape quote s ++ rest)) = _
      rw [elements_plain, ih]
      · rfl
      · rintro rfl
        exact hc (backslash_mem_special quote)
      · rintro hquote rfl
        rw [beq_iff_eq.mp hquote] at hc
        exact hc (by decide)

theorem WordText.isNameChar {x : List Char} (hx : WordText x) : ∀ d ∈ x, isNameChar d := by
  obtain ⟨c, cs, rfl, hc, hcs⟩ := hx
  refine List.forall_mem_cons.mpr ⟨?_, hcs⟩
  simp only [isNameStart, Bool.or_eq_true] at hc
  simp only [Lexer.isNameChar, Char.isAlphanum, Bool.or_eq_true]
  tauto

theorem elements_var {x rest : List Char} (hx : WordText x)
    (hrest : ∀ c ∈ rest.head?, ¬ isNameChar c) :
    elements true ('$' :: (x ++ rest)) = .var (String.ofList x) :: elements true rest := by
  have hname : ∀ d ∈ x, isNameChar d := hx.isNameChar
  have hstop : rest.takeWhile isNameChar = [] ∧ rest.dropWhile isNameChar = rest := by
    cases rest with
    | nil => simp
    | cons d ds => simp [hrest d rfl]
  have hstart : (true && '$' == '$' && (x ++ rest).head?.any isNameStart) = true := by
    obtain ⟨c, cs, rfl, hc, -⟩ := hx
    exact hc
  rw [elements]
  · rw [if_pos hstart, List.takeWhile_append_of_pos hname,
      List.dropWhile_append_of_pos hname, hstop.1, hstop.2, List.append_nil]
  · rintro d ds ⟨⟩

/-! ## Joining -/

def partElements : TextPart → List Element
  | .text s => s.toList.map .char
  | .var x => [.var x]

theorem joinElements_chars (s seg : List Char) (es : List Element) :
    joinElements seg (s.map .char ++ es) = joinElements (s.reverse ++ seg) es := by
  induction s generalizing seg with
  | nil => rfl
  | cons c s ih => simp [joinElements, ih]

/-- What has been gathered ends at a variable, or at the end. -/
theorem joinElements_gathered {seg : List Char} (hseg : seg ≠ []) {es : List Element}
    (hes : ∀ c, es.head? ≠ some (.char c)) :
    joinElements seg es = .text (String.ofList seg.reverse) :: joinElements [] es := by
  match es with
  | [] => simp [joinElements, hseg]
  | .var x :: es => simp [joinElements, hseg]
  | .char c :: es => exact absurd rfl (hes c)

theorem joinElements_elements {parts : List TextPart} (htexts : ∀ s, .text s ∈ parts → s ≠ "")
    (hfollows : parts.IsChain Follows) : joinElements [] (parts.flatMap partElements) = parts := by
  induction parts with
  | nil => rfl
  | cons p parts ih =>
    have ih := ih (fun s hs => htexts s (.tail _ hs)) hfollows.tail
    rw [List.flatMap_cons]
    cases p with
    | var x => simp [partElements, joinElements, ih]
    | text s =>
      -- no text follows, so what is gathered here is all of it
      have hs : s.toList.reverse ≠ [] := by
        simpa using htexts s List.mem_cons_self
      have hnext : ∀ c, (parts.flatMap partElements).head? ≠ some (.char c) := by
        intro c
        match parts with
        | [] => simp
        | .var x :: parts => simp [partElements]
        | .text t :: parts => exact hfollows.rel.elim
      rw [partElements, joinElements_chars, List.append_nil, joinElements_gathered hs hnext, ih,
        List.reverse_reverse, String.ofList_toList]

/-! ## Reading literals -/

theorem head_escape (quote c : Char) (s rest : List Char) :
    (escape quote (c :: s) ++ rest).head? = some (if c ∈ special quote then '\\' else c) := by
  rw [escape_cons]
  split <;> rfl

/-- What stands after a variable in the body of a template ends its name. -/
theorem not_isNameChar_after {x : String} {parts : List TextPart}
    (h : (TextPart.var x :: parts).IsChain Follows) (htexts : ∀ s, .text s ∈ parts → s ≠ "") :
    ∀ c ∈ (parts.flatMap partBody).head?, ¬ isNameChar c := by
  intro c hc
  match parts with
  | [] => cases hc
  | .var y :: parts =>
    obtain rfl : '$' = c := Option.some.inj hc
    decide
  | .text s :: parts =>
    have hs : s.toList ≠ [] := by
      simpa using htexts s List.mem_cons_self
    obtain ⟨d, ds, hd⟩ := List.exists_cons_of_ne_nil hs
    rw [List.flatMap_cons, partBody, hd, head_escape] at hc
    obtain rfl := Option.some.inj hc
    split
    · decide
    · exact h.rel d (by rw [hd]; rfl)

theorem elements_parts {parts : List TextPart} (htexts : ∀ s, .text s ∈ parts → s ≠ "")
    (hnames : ∀ x, .var x ∈ parts → WordText x.toList) (hfollows : parts.IsChain Follows) :
    elements true (parts.flatMap partBody) = parts.flatMap partElements := by
  induction parts with
  | nil => simp [elements]
  | cons p parts ih =>
    have ih := ih (fun s hs => htexts s (.tail _ hs)) (fun x hx => hnames x (.tail _ hx))
      hfollows.tail
    rw [List.flatMap_cons, List.flatMap_cons]
    cases p with
    | text s =>
      rw [← ih]
      exact elements_escape '"' s.toList _
    | var x =>
      have hrest := not_isNameChar_after hfollows fun s hs => htexts s (.tail _ hs)
      show elements true ('$' :: (x.toList ++ parts.flatMap partBody)) = _
      rw [elements_var (hnames x List.mem_cons_self) hrest, ih, String.ofList_toList]
      rfl

theorem stringKind_escape (quote : Char) (s : String) :
    stringKind (quote == '"') (escape quote s.toList) = .string s := by
  have helements := elements_escape quote s.toList []
  rw [List.append_nil, elements, List.append_nil] at helements
  have hjoin := joinElements_chars s.toList [] []
  rw [List.append_nil, List.append_nil] at hjoin
  unfold stringKind
  rw [helements, hjoin]
  by_cases hs : s = ""
  · subst hs
    rfl
  · simp [joinElements, hs]

theorem stringKind_parts {parts : List TextPart} (h : TemplateParts parts) :
    stringKind true (parts.flatMap partBody) = .template parts := by
  unfold stringKind
  rw [elements_parts h.texts h.names h.follows, joinElements_elements h.texts h.follows]
  obtain ⟨x, hx⟩ := h.hasVar
  split
  · cases hx
  · simp at hx
  · rfl

theorem StringBody.append_name {x rest : List Char} (hx : ∀ c ∈ x, isNameChar c)
    (h : StringBody '"' rest) : StringBody '"' (x ++ rest) := by
  induction x with
  | nil => exact h
  | cons c x ih =>
    obtain ⟨hc, hx⟩ := List.forall_mem_cons.mp hx
    refine .plain ?_ ?_ (ih hx)
    · rintro rfl
      cases hc
    · rintro rfl
      cases hc

theorem stringBody_parts {parts : List TextPart}
    (hnames : ∀ x, .var x ∈ parts → WordText x.toList) :
    StringBody '"' (parts.flatMap partBody) := by
  induction parts with
  | nil => exact .nil
  | cons p parts ih =>
    have ih := ih fun x hx => hnames x (.tail _ hx)
    cases p with
    | text s => exact ih.append_escape (.inl rfl) s.toList
    | var x =>
      have hx := (hnames x List.mem_cons_self).isNameChar
      exact .plain (by decide) (by decide) (ih.append_name hx)

/-- The tokens of a source that is one token. -/
def alone (kind : TokenKind) (source : String) : List Token :=
  [⟨kind, source, .start⟩, ⟨.eof, "", Position.start.past source.toList⟩]

/-- A string is scanned up to its closing quote, whatever follows. -/
theorem scan_literal {quote : Char} (hq : quote = '"' ∨ quote = '\'') {body : List Char}
    (h : StringBody quote body) (rest : List Char) :
    scan quote (body ++ quote :: rest) =
      .ok (.token (stringKind (quote == '"') body), body.length + 1) := by
  have hquote : quote ≠ '\\' := by
    rcases hq with rfl | rfl <;> decide
  have huntil := untilQuote_append hquote h rest
  rcases hq with rfl | rfl <;> simp [scan, quoted, huntil]

theorem tokenize_literal {quote : Char} (hq : quote = '"' ∨ quote = '\'') {body : List Char}
    (h : StringBody quote body) :
    tokenize (literal quote body) = .ok (alone (stringKind (quote == '"') body) (literal quote body)) := by
  have hscan := scan_literal hq h []
  have hlength : body.length + 1 = (body ++ [quote]).length := by simp
  rw [tokenize, literal, String.toList_ofList, tokensFrom, hscan]
  simp only [hlength, List.take_length, List.drop_length]
  rw [tokensFrom]
  simp [record, alone]

/-- A literal is read as one token, which is the text or the template that was written. -/
theorem literals_read_back :
    (∀ s : String, tokenize (textLiteral '\'' s) = .ok (alone (.string s) (textLiteral '\'' s))) ∧
    (∀ s : String, tokenize (textLiteral '"' s) = .ok (alone (.string s) (textLiteral '"' s))) ∧
    (∀ parts, TemplateParts parts →
      tokenize (templateLiteral parts) = .ok (alone (.template parts) (templateLiteral parts))) := by
  have htext {quote : Char} (hq : quote = '"' ∨ quote = '\'') (s : String) :
      tokenize (textLiteral quote s) = .ok (alone (.string s) (textLiteral quote s)) := by
    have hbody : StringBody quote (escape quote s.toList) := by
      simpa using StringBody.nil.append_escape hq s.toList
    rw [textLiteral, tokenize_literal hq hbody, stringKind_escape]
  refine ⟨htext (.inr rfl), htext (.inl rfl), fun parts h => ?_⟩
  rw [templateLiteral, tokenize_literal (.inl rfl) (stringBody_parts h.names)]
  exact congrArg (fun kind => Except.ok (alone kind _)) (stringKind_parts h)

theorem literals_read_back_price :
    tokenize "\"costs \\$$n\n$a$b_1\"" = .ok (alone
      (.template [.text "costs $", .var "n", .text "\n", .var "a", .var "b_1"])
      "\"costs \\$$n\n$a$b_1\"") := by
  refine literals_read_back.2.2 [.text "costs $", .var "n", .text "\n", .var "a", .var "b_1"] ?_
  have hname (c : Char) (cs : List Char) (hc : isNameStart c) (hcs : cs.all isNameChar) :
      WordText (c :: cs) := ⟨c, cs, rfl, hc, List.all_eq_true.mp hcs⟩
  have hbreak : isNameChar '\n' = false := rfl
  refine ⟨⟨"n", by simp⟩, by simp, ?_, by simp [Follows, hbreak]⟩
  intro x hx
  obtain rfl | rfl | rfl : x = "n" ∨ x = "a" ∨ x = "b_1" := by simpa using hx
  · exact hname 'n' [] rfl rfl
  · exact hname 'a' [] rfl rfl
  · exact hname 'b' ['_', '1'] rfl rfl

end Lexer

end DeskScript
