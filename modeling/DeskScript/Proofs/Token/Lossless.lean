import DeskScript.Proofs.Token.Lexeme

/-!
# No character of a source is lost

The source is made up of the texts of its tokens and of what may stand between
them, in order, and every token knows its place. Where the lexer fails, this holds
of the text before that place, and no token begins there.

    tokenize source = .ok ts →
      ∃ ps, ps.map Entry.token = ts ∧ source.toList = written ps ∧ Laid ps []

A line break gives a token only after a token that is none itself, so between other
tokens nothing but blanks and comments is skipped.
-/

namespace DeskScript

namespace Lexer

/-! ## Places -/

/-- The place after a text. Lines are counted by line feeds, columns by the characters of the last
line, both from 1. -/
def placeAfter (text : List Char) : Position :=
  ⟨text.count '\n' + 1, (text.reverse.takeWhile (· != '\n')).length + 1⟩

theorem past_start (text : List Char) : Position.start.past text = placeAfter text := by
  -- by induction on the reversed text: the last character decides
  suffices h : ∀ back : List Char, Position.start.past back.reverse = placeAfter back.reverse by
    simpa using h text.reverse
  intro back
  induction back with
  | nil => rfl
  | cons c back ih =>
    rw [List.reverse_cons, Position.past_append, ih]
    by_cases hc : c = '\n'
    · simp [placeAfter, Position.next, hc]
    · simp [placeAfter, Position.next, hc]

theorem placeAfter_past (text l : List Char) : (placeAfter text).past l = placeAfter (text ++ l) := by
  rw [← past_start, ← past_start, Position.past_append]

/-! ## Sources in pieces -/

/-- What may be skipped in front of `rest`: blanks, comments, and with `breaks` separators. -/
inductive Skipped (breaks : Bool) : List Char → List Char → Prop
  | nil {rest : List Char} : Skipped breaks [] rest
  | filler {l gap rest : List Char} :
      Filler l (gap ++ rest) → Skipped breaks gap rest → Skipped breaks (l ++ gap) rest
  | separator {c : Char} {gap rest : List Char} :
      breaks = true → c ∈ ['\n', ';'] → Skipped breaks gap rest → Skipped breaks (c :: gap) rest

/-- A token and the text skipped before it. -/
structure Entry where
  gap : List Char
  token : Token

def Entry.text (p : Entry) : List Char := p.gap ++ p.token.lexeme.toList

/-- The text that entries are made of. -/
def written (ps : List Entry) : List Char := ps.flatMap Entry.text

/-- May separators be skipped after these entries? Only at the start and after a line break. -/
def breaksAfter (ps : List Entry) : Bool := ps.getLast?.all (·.token.kind = .newline)

/-- The entries stand in front of `rest`: the gap before each token may be skipped, and the token
has its text and its place. -/
def Laid (ps : List Entry) (rest : List Char) : Prop :=
  ∀ before p after, ps = before ++ p :: after →
    Skipped (breaksAfter before) p.gap (p.token.lexeme.toList ++ written after ++ rest) ∧
    TokenText p.token.lexeme.toList p.token.kind ∧
    p.token.pos = placeAfter (written before ++ p.gap)

/-- No line break comes first or right after another one. -/
def BreaksApart (ts : List Token) : Prop :=
  (∀ t ∈ ts.head?, t.kind ≠ .newline) ∧
    ∀ before a b after, ts = before ++ a :: b :: after → a.kind = .newline → b.kind ≠ .newline

theorem written_append (ps qs : List Entry) : written (ps ++ qs) = written ps ++ written qs :=
  List.flatMap_append

theorem Skipped.append {breaks : Bool} {g g' rest : List Char} (h : Skipped breaks g (g' ++ rest))
    (h' : Skipped breaks g' rest) : Skipped breaks (g ++ g') rest := by
  generalize hr : g' ++ rest = r at h
  induction h with
  | nil => exact h'
  | @filler l gap _ hl _ ih =>
    subst hr
    rw [List.append_assoc]
    exact .filler (by rwa [List.append_assoc]) (ih rfl)
  | separator hb hc _ ih => exact .separator hb hc (ih hr)

theorem Laid.snoc {ps : List Entry} {p : Entry} {rest : List Char} (h : Laid ps (p.text ++ rest))
    (hgap : Skipped (breaksAfter ps) p.gap (p.token.lexeme.toList ++ rest))
    (htext : TokenText p.token.lexeme.toList p.token.kind)
    (hpos : p.token.pos = placeAfter (written ps ++ p.gap)) : Laid (ps ++ [p]) rest := by
  intro before q after hsplit
  rcases List.eq_nil_or_concat after with rfl | ⟨after, r, rfl⟩
  · -- the new entry is the last one
    obtain ⟨rfl, rfl⟩ : ps = before ∧ p = q := by simpa using List.append_inj' hsplit rfl
    exact ⟨by simpa [written] using hgap, htext, hpos⟩
  · have hinj : ps ++ [p] = (before ++ q :: after) ++ [r] := by simpa using hsplit
    obtain ⟨hps, hr⟩ := List.append_inj' hinj rfl
    obtain rfl : p = r := by simpa using hr
    obtain ⟨hskip, hrest⟩ := h before q after hps
    refine ⟨?_, hrest⟩
    simpa [written_append, written, List.append_assoc] using hskip

theorem BreaksApart.snoc {ts : List Token} (h : BreaksApart ts) {t : Token}
    (ht : t.kind = .newline → ∃ u ∈ ts.getLast?, u.kind ≠ .newline) : BreaksApart (ts ++ [t]) := by
  refine ⟨fun u hu hnewline => ?_, fun before a b after hsplit ha hb => ?_⟩
  · cases ts with
    | nil =>
      obtain rfl : t = u := by simpa using hu
      obtain ⟨v, hv, -⟩ := ht hnewline
      cases hv
    | cons v ts => exact h.1 u (by simpa using hu) hnewline
  · rcases List.eq_nil_or_concat after with rfl | ⟨after, r, rfl⟩
    · have hinj : ts ++ [t] = (before ++ [a]) ++ [b] := by simpa using hsplit
      obtain ⟨rfl, hb'⟩ := List.append_inj' hinj rfl
      obtain rfl : t = b := by simpa using hb'
      obtain ⟨u, hu, hne⟩ := ht hb
      obtain rfl : a = u := by simpa using hu
      exact hne ha
    · have hinj : ts ++ [t] = (before ++ a :: b :: after) ++ [r] := by simpa using hsplit
      exact h.2 before a b after (List.append_inj' hinj rfl).1 ha hb

/-! ## Reading on -/

/-- The text so far is that of the entries and of a gap after them; `cs` is yet to be read. -/
structure Scanning (ps : List Entry) (gap cs : List Char) (read : List Token) (pos : Position) :
    Prop where
  read : read = (ps.map Entry.token).reverse
  pos : pos = placeAfter (written ps ++ gap)
  laid : Laid ps (gap ++ cs)
  gap : Skipped (breaksAfter ps) gap cs
  apart : BreaksApart (ps.map Entry.token)
  open_ : ∀ p ∈ ps, p.token.kind ≠ .eof

namespace Scanning

variable {ps : List Entry} {gap l rest : List Char} {read : List Token} {pos : Position}

theorem breaksAfter_eq (h : Scanning ps gap rest read pos) :
    breaksAfter ps = read.head?.all (·.kind = .newline) := by
  rw [h.read, List.head?_reverse, List.getLast?_map, breaksAfter]
  cases ps.getLast? <;> rfl

/-- Skipping more. -/
theorem skip (h : Scanning ps gap (l ++ rest) read pos) (hl : Skipped (breaksAfter ps) l rest) :
    Scanning ps (gap ++ l) rest read (pos.past l) where
  read := h.read
  pos := by rw [h.pos, placeAfter_past, List.append_assoc]
  laid := by
    rw [List.append_assoc]
    exact h.laid
  gap := h.gap.append hl
  apart := h.apart
  open_ := h.open_

/-- One token more. -/
theorem add (h : Scanning ps gap (l ++ rest) read pos) {kind : TokenKind} (htext : TokenText l kind)
    (heof : kind ≠ .eof) (hbreak : kind = .newline → breaksAfter ps = false) :
    Scanning (ps ++ [⟨gap, ⟨kind, String.ofList l, pos⟩⟩]) [] rest
      (⟨kind, String.ofList l, pos⟩ :: read) (pos.past l) := by
  have hwritten : written [⟨gap, ⟨kind, String.ofList l, pos⟩⟩] = gap ++ l := by
    simp [written, Entry.text]
  refine
    { read := by rw [h.read]; simp
      pos := ?_
      laid := ?_
      gap := .nil
      apart := ?_
      open_ := ?_ }
  · rw [written_append, hwritten, h.pos, placeAfter_past, List.append_nil, List.append_assoc]
  · refine Laid.snoc ?_ ?_ ?_ h.pos
    · simpa [Entry.text] using h.laid
    · simpa using h.gap
    · simpa using htext
  · rw [List.map_append]
    refine h.apart.snoc fun hnewline => ?_
    obtain ⟨p, hp, hne⟩ : ∃ p ∈ ps.getLast?, p.token.kind ≠ .newline := by
      simpa [breaksAfter, Option.all_eq_false] using hbreak hnewline
    exact ⟨p.token, by simp [List.getLast?_map, Option.mem_def.mp hp], hne⟩
  · intro p hp
    rcases List.mem_append.mp hp with hp | hp
    · exact h.open_ p hp
    · rw [List.mem_singleton.mp hp]
      exact heof

/-- One piece more. -/
theorem step {c : Char} {cs : List Char} (h : Scanning ps gap (c :: cs) read pos) {piece : Piece}
    {n : Nat} (hscan : scan c cs = .ok (piece, n)) :
    ∃ ps' gap', written ps' ++ gap' ++ cs.drop n = written ps ++ gap ++ c :: cs ∧
      Scanning ps' gap' (cs.drop n) (record read piece (c :: cs.take n) pos)
        (pos.past (c :: cs.take n)) := by
  have hcovers := scan_covers hscan
  have hcs : c :: cs = (c :: cs.take n) ++ cs.drop n := by simp
  rw [hcs] at h ⊢
  generalize c :: cs.take n = l at *
  generalize cs.drop n = rest at *
  have hskip (hl : Skipped (breaksAfter ps) l rest) : ∃ ps' gap',
      written ps' ++ gap' ++ rest = written ps ++ gap ++ (l ++ rest) ∧
        Scanning ps' gap' rest read (pos.past l) :=
    ⟨ps, gap ++ l, by simp, h.skip hl⟩
  have hadd {kind : TokenKind} (htext : TokenText l kind) (heof : kind ≠ .eof)
      (hbreak : kind = .newline → breaksAfter ps = false) : ∃ ps' gap',
      written ps' ++ gap' ++ rest = written ps ++ gap ++ (l ++ rest) ∧
        Scanning ps' gap' rest (⟨kind, String.ofList l, pos⟩ :: read) (pos.past l) :=
    ⟨_, [], by simp [written, Entry.text], h.add htext heof hbreak⟩
  cases piece with
  | skip =>
    have hfiller : Filler l ([] ++ rest) := hcovers
    simpa [record] using hskip (by simpa using Skipped.filler hfiller .nil)
  | separator =>
    obtain ⟨d, hd, rfl⟩ := hcovers
    have hbreaks := h.breaksAfter_eq
    cases read with
    | nil => exact hskip (.separator hbreaks hd .nil)
    | cons t ts =>
      simp only [record]
      split
      · next hk => exact hskip (.separator (by simpa [hk] using hbreaks) hd .nil)
      · next hk =>
        have htext : TokenText [d] .newline := by simpa [TokenText] using hd
        exact hadd htext (by simp) fun _ => by simpa [hk] using hbreaks
  | token kind => exact hadd hcovers.1 hcovers.2.2 fun hk => absurd hk hcovers.2.1

/-- At the end of the source one token is left, the end of input. -/
theorem finish (h : Scanning ps gap [] read pos) :
    Laid (ps ++ [⟨gap, ⟨.eof, "", pos⟩⟩]) [] ∧
      BreaksApart (ps.map Entry.token ++ [⟨.eof, "", pos⟩]) := by
  refine ⟨Laid.snoc ?_ ?_ rfl h.pos, h.apart.snoc fun hk => by cases hk⟩
  · simpa [Entry.text] using h.laid
  · simpa using h.gap

end Scanning

/-- A result of the lexer accounts for a source: it is made up of the tokens and what stands between
them, or, up to the place of the error, of the tokens before it. -/
def Accounts (source : List Char) : Except LexError (List Token) → Prop
  | .ok ts => ∃ ps, ps.map Entry.token = ts ∧ source = written ps ∧ Laid ps [] ∧ BreaksApart ts ∧
      ∃ init last, ts = init ++ [last] ∧ last.kind = .eof ∧ ∀ t ∈ init, t.kind ≠ .eof
  | .error err => ∃ ps gap rest, source = written ps ++ gap ++ rest ∧ Laid ps (gap ++ rest) ∧
      Skipped (breaksAfter ps) gap rest ∧ BreaksApart (ps.map Entry.token) ∧
      err.pos = placeAfter (written ps ++ gap) ∧ Stuck err.cause rest

theorem tokensFrom_accounts {ps : List Entry} {gap cs : List Char} {read : List Token}
    {pos : Position} (h : Scanning ps gap cs read pos) :
    Accounts (written ps ++ gap ++ cs) (tokensFrom read pos cs) := by
  fun_induction tokensFrom read pos cs generalizing ps gap with
  | case1 read pos =>
    obtain ⟨hlaid, hapart⟩ := h.finish
    have hts : (⟨.eof, "", pos⟩ :: read).reverse = ps.map Entry.token ++ [⟨.eof, "", pos⟩] := by
      rw [h.read]
      simp
    rw [hts]
    refine ⟨_, by simp, by simp [written, Entry.text], hlaid, hapart, _, _, rfl, rfl, ?_⟩
    intro t ht
    obtain ⟨p, hp, rfl⟩ := List.mem_map.mp ht
    exact h.open_ p hp
  | case2 read pos c cs cause hscan =>
    exact ⟨ps, gap, c :: cs, rfl, h.laid, h.gap, h.apart, h.pos, scan_stuck hscan⟩
  | case3 read pos c cs piece n hscan lexeme =>
    rename_i ih
    obtain ⟨ps', gap', hsource, h'⟩ := h.step hscan
    rw [← hsource]
    exact ih h'

theorem scanning_start (cs : List Char) : Scanning [] [] cs [] .start :=
  ⟨rfl, rfl, by simp [Laid], .nil, ⟨by simp, by simp⟩, by simp⟩

theorem tokenize_of_toOption {source : String} {ts : List Token}
    (h : (tokenize source).toOption = some ts) : tokenize source = .ok ts := by
  revert h
  cases tokenize source <;> simp [Except.toOption]

/-- Each token of a source has the text of its kind, and the last one is the end of input. -/
theorem tokenText_of_tokenize {source : String} {ts : List Token} (h : tokenize source = .ok ts) :
    (∀ t ∈ ts, TokenText t.lexeme.toList t.kind) ∧ ∃ t, ts.getLast? = some t ∧ t.kind = .eof := by
  have haccounts : Accounts source.toList (tokenize source) :=
    tokensFrom_accounts (scanning_start _)
  rw [h] at haccounts
  obtain ⟨ps, rfl, -, hlaid, -, init, last, hts, hlast, -⟩ := haccounts
  refine ⟨fun t ht => ?_, last, by simp [hts], hlast⟩
  obtain ⟨p, hp, rfl⟩ := List.mem_map.mp ht
  obtain ⟨before, after, hsplit⟩ := List.append_of_mem hp
  exact (hlaid before p after hsplit).2.1

end Lexer

/-- **No character is lost**, and an error stands where no token begins. -/
theorem tokenize_accounts (source : String) : Lexer.Accounts source.toList (tokenize source) :=
  Lexer.tokensFrom_accounts (Lexer.scanning_start source.toList)

end DeskScript
