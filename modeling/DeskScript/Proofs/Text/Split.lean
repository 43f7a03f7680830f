import DeskScript.Native

/-!
# Joining undoes splitting

A text is cut at the occurrences of a separator from left to right. The pieces, with the
separator between them, are the text again, and no piece has the separator in it:

    sep.intercalate (splitAt sep cs) = cs                          (intercalate_splitAt)
    p ∈ splitAt sep cs → ¬ sep <:+: p                              (not_infix_of_mem_splitAt)

An occurrence could begin in one piece and end beyond it; what the scan keeps up is that none
begins in the piece read so far (`Clear`). That there is more than one piece just where the
separator occurs follows from the two lines above.
-/

namespace DeskScript

variable {sep : List Char}

/-! ## Occurrences -/

theorem hasPart_iff {cs : List Char} : hasPart sep cs = true ↔ sep <:+: cs := by
  induction cs with
  | nil => simp [hasPart]
  | cons c cs ih => simp [hasPart, ih, List.infix_cons_iff]

/-- No occurrence of the separator begins in `piece`, when `rest` follows it. -/
def Clear (sep piece rest : List Char) : Prop :=
  ∀ r, r <:+ piece → r ≠ [] → ¬ sep <+: r ++ rest

theorem clear_nil (rest : List Char) : Clear sep [] rest := by
  intro r hr hne
  exact absurd (List.suffix_nil.mp hr) hne

/-- One character more, at which no separator begins. -/
theorem Clear.snoc {piece rest : List Char} {c : Char} (h : Clear sep piece (c :: rest))
    (hc : ¬ sep <+: c :: rest) : Clear sep (piece ++ [c]) rest := by
  intro r hr hne
  rcases List.suffix_concat_iff.mp (by simpa using hr) with rfl | ⟨r, rfl, hpiece⟩
  · exact absurd rfl hne
  · rw [List.append_assoc]
    by_cases hnil : r = []
    · simpa [hnil] using hc
    · exact h r hpiece hnil

theorem Clear.not_infix {piece rest : List Char} (h : Clear sep piece rest) (hsep : sep ≠ []) :
    ¬ sep <:+: piece := by
  rintro ⟨s, t, rfl⟩
  refine h (sep ++ t) ⟨s, by simp⟩ (by simp [hsep]) ?_
  rw [List.append_assoc]
  exact List.prefix_append _ _

/-! ## Pieces -/

theorem intercalate_characters (cs : List Char) : [].intercalate (cs.map fun c => [c]) = cs := by
  induction cs with
  | nil => rfl
  | cons c cs ih =>
    cases cs with
    | nil => rfl
    | cons d ds =>
      rw [List.map_cons, List.intercalate_cons_of_ne_nil (by simp), ih]
      rfl

theorem splitFrom_ne_nil (skip : Nat) (piece cs : List Char) :
    splitFrom sep skip piece cs ≠ [] := by
  fun_induction splitFrom sep skip piece cs with
  | case1 => simp
  | case2 => assumption
  | case3 => simp
  | case4 => assumption

theorem intercalate_splitFrom (skip : Nat) (piece cs : List Char) (hsep : sep ≠ []) :
    sep.intercalate (splitFrom sep skip piece cs) = piece.reverse ++ cs.drop skip := by
  fun_induction splitFrom sep skip piece cs with
  | case1 => simp
  | case2 piece c cs k ih => simpa using ih
  | case3 piece c cs hprefix ih =>
    -- what is skipped next is the rest of this separator
    obtain ⟨d, ds, rfl⟩ := List.exists_cons_of_ne_nil hsep
    obtain ⟨rest, hrest⟩ := List.isPrefixOf_iff_prefix.mp hprefix
    obtain ⟨rfl, rfl⟩ := List.cons.inj hrest
    rw [List.intercalate_cons_of_ne_nil (splitFrom_ne_nil _ _ _), ih]
    simp
  | case4 piece c cs hprefix ih => simpa using ih

/-- Joined again, the pieces are the text. -/
theorem intercalate_splitAt (hsep : sep ≠ []) (cs : List Char) :
    sep.intercalate (splitAt sep cs) = cs :=
  intercalate_splitFrom 0 [] cs hsep

theorem not_infix_of_mem_splitFrom {skip : Nat} {piece cs p : List Char} (hsep : sep ≠ [])
    (hskip : skip = 0 ∨ piece = []) (hclear : Clear sep piece.reverse cs)
    (hp : p ∈ splitFrom sep skip piece cs) : ¬ sep <:+: p := by
  fun_induction splitFrom sep skip piece cs with
  | case1 piece =>
    rw [List.mem_singleton.mp hp]
    exact hclear.not_infix hsep
  | case2 piece c cs k ih =>
    obtain rfl : piece = [] := hskip.resolve_left (Nat.succ_ne_zero k)
    exact ih (.inr rfl) (clear_nil cs) hp
  | case3 piece c cs hprefix ih =>
    rcases List.mem_cons.mp hp with rfl | hp
    · exact hclear.not_infix hsep
    · exact ih (.inr rfl) (clear_nil cs) hp
  | case4 piece c cs hprefix ih =>
    have hc : ¬ sep <+: c :: cs := fun h => hprefix (List.isPrefixOf_iff_prefix.mpr h)
    refine ih (.inl rfl) ?_ hp
    rw [List.reverse_cons]
    exact hclear.snoc hc

/-- No piece has the separator in it. -/
theorem not_infix_of_mem_splitAt {cs p : List Char} (hsep : sep ≠ [])
    (hp : p ∈ splitAt sep cs) : ¬ sep <:+: p :=
  not_infix_of_mem_splitFrom hsep (.inl rfl) (clear_nil cs) hp

theorem one_lt_length_splitAt_iff (hsep : sep ≠ []) (cs : List Char) :
    1 < (splitAt sep cs).length ↔ sep <:+: cs := by
  have hjoined := intercalate_splitAt hsep cs
  have hclear := @not_infix_of_mem_splitAt sep cs
  match h : splitAt sep cs with
  | [] => exact absurd h (splitFrom_ne_nil 0 [] cs)
  | [p] =>
    rw [h, List.intercalate_singleton] at hjoined
    subst hjoined
    simpa using hclear hsep (by simp [h])
  | p :: q :: ps =>
    rw [h, List.intercalate_cons_cons] at hjoined
    refine iff_of_true (by simp) ⟨p, sep.intercalate (q :: ps), ?_⟩
    simpa using hjoined

/-! ## The functions -/

namespace Native

/-- The pieces of a string at the text of a separator. -/
def pieceTexts (s sep : String) : List String :=
  if sep = "" then s.toList.map fun c => c.toString
  else (splitAt sep.toList s.toList).map String.ofList

theorem pieces_eq (s : String) {sep : Value} (hsep : sep ≠ .null) :
    pieces s (some sep) = (pieceTexts s sep.text).map .string := by
  have hpieces : pieces s (some sep) = if sep.text.isEmpty then Value.characters s
      else (splitAt sep.text.toList s.toList).map fun w => .string (String.ofList w) := by
    cases sep with
    | null => exact absurd rfl hsep
    | _ => rfl
  rw [hpieces, pieceTexts]
  by_cases hempty : sep.text = ""
  · simp [hempty, Value.characters]
  · simp [hempty]

theorem intercalate_pieceTexts (s sep : String) : String.intercalate sep (pieceTexts s sep) = s := by
  rw [← String.toList_inj, String.toList_intercalate, pieceTexts]
  split
  · next hempty =>
    have hsingle : String.toList ∘ (fun c : Char => c.toString) = fun c => [c] := by
      funext c
      exact String.toList_singleton c
    rw [hempty, List.map_map, hsingle]
    exact intercalate_characters s.toList
  · next hempty =>
    have htexts : ((splitAt sep.toList s.toList).map String.ofList).map String.toList =
        splitAt sep.toList s.toList := by simp
    rw [htexts]
    exact intercalate_splitAt (by simpa using hempty) s.toList

theorem join_strings (items : List String) (sep : Value) :
    join [.array (items.map .string), sep] = .ok (.string (String.intercalate sep.text items)) := by
  have htext : Value.text ∘ Value.string = id := by
    funext s
    simp [Value.text, Value.display]
  show Except.ok (Value.string (String.intercalate sep.text
    ((items.map Value.string).map Value.text))) = _
  rw [List.map_map, htext, List.map_id]

/-- **Joining undoes splitting** at any separator but null. If it is not empty, no piece has it in
it, and there is more than one piece just if the string has; if it is empty, the pieces are the
characters. -/
theorem join_undoes_split (s : String) (sep : Value) (hsep : sep ≠ .null) :
    ∃ items : List String,
      split [.string s, sep] = .ok (.array (items.map .string)) ∧
      join [.array (items.map .string), sep] = .ok (.string s) ∧
      (sep.text ≠ "" → items ≠ [] ∧ (∀ p ∈ items, ¬ sep.text.toList <:+: p.toList) ∧
        (1 < items.length ↔ contains [.string s, sep] = .ok (.bool true))) ∧
      (sep.text = "" → items = s.toList.map fun c => c.toString) := by
  have hsplit : split [.string s, sep] = .ok (.array (pieces s (some sep))) := rfl
  have hcontains : contains [.string s, sep] =
      .ok (.bool (hasPart sep.text.toList s.toList)) := rfl
  refine ⟨pieceTexts s sep.text, ?_, ?_, fun hne => ?_, fun hempty => if_pos hempty⟩
  · rw [hsplit, pieces_eq s hsep]
  · rw [join_strings, intercalate_pieceTexts]
  · have hlist : sep.text.toList ≠ [] := by simpa using hne
    rw [pieceTexts, if_neg hne, hcontains]
    refine ⟨fun h => splitFrom_ne_nil 0 [] s.toList (List.map_eq_nil_iff.mp h), ?_, ?_⟩
    · intro p hp
      obtain ⟨w, hw, rfl⟩ := List.mem_map.mp hp
      rw [String.toList_ofList]
      exact not_infix_of_mem_splitAt hlist hw
    · rw [List.length_map, one_lt_length_splitAt_iff hlist, ← hasPart_iff]
      simp

theorem join_undoes_split_overlapping : Value.string "aa" ≠ .null ∧
    split [.string "aaaxaa", .string "aa"] = .ok (.array [.string "", .string "ax", .string ""]) ∧
    join [.array [.string "", .string "ax", .string ""], .string "aa"] = .ok (.string "aaaxaa") := by
  have hnull : Value.string "aa" ≠ .null := by simp
  obtain ⟨items, hsplit, hjoin, -⟩ := join_undoes_split "aaaxaa" (.string "aa") hnull
  have hitems : split [.string "aaaxaa", .string "aa"] =
      .ok (.array [.string "", .string "ax", .string ""]) := by
    have htext : (Value.string "aa").text = "aa" := by simp [Value.text, Value.display]
    show Except.ok (Value.array (pieces "aaaxaa" (some (.string "aa")))) = _
    rw [pieces_eq _ hnull, htext]
    rfl
  rw [hitems] at hsplit
  rw [← Value.array.inj (Except.ok.inj hsplit)] at hjoin
  exact ⟨hnull, hitems, hjoin⟩

end Native

end DeskScript
