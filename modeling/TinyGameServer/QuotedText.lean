import Mathlib.Data.List.Basic

/-!
# Texts with quoted literals

A text over any alphabet with a quote symbol is read from left to right. A quote opens a literal,
a quote that is not doubled closes it, and a doubled quote stands for one. `doubled` writes a
value so that it is read back. A value that is written as it is can only be read back if it
contains no quote.
-/

namespace TinyGameServer.QuotedText

variable {α : Type}

inductive Lexeme (α : Type) where
  | char (c : α)
  | literal (value : List α)
  deriving DecidableEq

/-- Where the reader is: in a literal with the value read so far, or behind a quote in it. -/
inductive Mode (α : Type) where
  | outside
  | inside (value : List α)
  | afterQuote (value : List α)

variable [DecidableEq α] (quote : α)

def lex : Mode α → List α → Option (List (Lexeme α))
  | .outside, [] => some []
  | .outside, c :: cs =>
    if c = quote then lex (.inside []) cs else (lex .outside cs).map (.char c :: ·)
  | .inside _, [] => none
  | .inside value, c :: cs =>
    if c = quote then lex (.afterQuote value) cs else lex (.inside (value ++ [c])) cs
  | .afterQuote value, [] => some [.literal value]
  | .afterQuote value, c :: cs =>
    if c = quote then lex (.inside (value ++ [quote])) cs
    else (lex .outside cs).map fun out => .literal value :: .char c :: out

def doubled (value : List α) : List α :=
  value.flatMap fun c => if c = quote then [quote, quote] else [c]

variable {quote}

/-! ## Outside of literals -/

theorem lex_outside_append {text : List α} (htext : quote ∉ text) (cs : List α) :
    lex quote .outside (text ++ cs) =
      (lex quote .outside cs).map (text.map Lexeme.char ++ ·) := by
  induction text with
  | nil => simp
  | cons c text ih =>
      have hc : c ≠ quote := fun h => htext (h ▸ List.mem_cons_self)
      have hrest : quote ∉ text := fun h => htext (List.mem_cons_of_mem c h)
      simp only [List.cons_append, lex, if_neg hc, ih hrest, Option.map_map, List.map_cons]
      rfl

theorem lex_outside_quote (cs : List α) :
    lex quote .outside (quote :: cs) = lex quote (.inside []) cs := if_pos rfl

/-- Behind a quote that is not doubled the literal is over. -/
theorem lex_afterQuote {cs : List α} (hcs : cs.head? ≠ some quote) (value : List α) :
    lex quote (.afterQuote value) cs = (lex quote .outside cs).map (.literal value :: ·) := by
  cases cs with
  | nil => rfl
  | cons c cs =>
      have hc : c ≠ quote := fun h => hcs (congrArg some h)
      simp only [lex, if_neg hc, Option.map_map]
      rfl

/-! ## Inside a literal -/

theorem lex_doubled (value text : List α) {cs : List α} (hcs : cs.head? ≠ some quote) :
    lex quote (.inside value) (doubled quote text ++ quote :: cs) =
      (lex quote .outside cs).map (.literal (value ++ text) :: ·) := by
  induction text generalizing value with
  | nil =>
      have h := lex_afterQuote hcs value
      rw [List.append_nil, ← h]
      exact if_pos rfl
  | cons c text ih =>
      rw [doubled, List.flatMap_cons]
      by_cases hc : c = quote
      · rw [if_pos hc, hc]
        simp only [List.cons_append, List.nil_append, lex, if_true]
        rw [← doubled, ih (value ++ [quote]), List.append_assoc]
        rfl
      · rw [if_neg hc]
        simp only [List.cons_append, List.nil_append, lex, if_neg hc]
        rw [← doubled, ih (value ++ [c]), List.append_assoc]
        rfl

/-- Every literal that is read was written in this way. -/
theorem lex_inside_eq_some (n : ℕ) {value cs : List α} (hn : cs.length ≤ n)
    {out : List (Lexeme α)} (h : lex quote (.inside value) cs = some out) :
    ∃ text rest out', cs = doubled quote text ++ quote :: rest ∧ rest.head? ≠ some quote ∧
      lex quote .outside rest = some out' ∧ out = .literal (value ++ text) :: out' := by
  induction n generalizing value cs with
  | zero =>
      rw [List.eq_nil_of_length_eq_zero (Nat.le_zero.mp hn)] at h
      cases h
  | succ n ih =>
      cases cs with
      | nil => cases h
      | cons c cs =>
          rw [List.length_cons] at hn
          rw [lex] at h
          split at h
          · next hc =>
            by_cases hcs : cs.head? = some quote
            · obtain ⟨cs', rfl⟩ := List.head?_eq_some_iff.mp hcs
              rw [lex, if_pos rfl] at h
              rw [List.length_cons] at hn
              obtain ⟨text, rest, out', rfl, hrest, hout', rfl⟩ := ih (by omega) h
              refine ⟨quote :: text, rest, out', ?_, hrest, hout', ?_⟩
              · rw [hc, doubled, doubled, List.flatMap_cons, if_pos rfl]
                rfl
              · rw [List.append_assoc]
                rfl
            · rw [lex_afterQuote hcs] at h
              obtain ⟨out', hout', rfl⟩ := Option.map_eq_some_iff.mp h
              refine ⟨[], cs, out', ?_, hcs, hout', ?_⟩
              · rw [hc]
                rfl
              · rw [List.append_nil]
          · next hc =>
            obtain ⟨text, rest, out', rfl, hrest, hout', rfl⟩ := ih (by omega) h
            refine ⟨c :: text, rest, out', ?_, hrest, hout', ?_⟩
            · rw [doubled, doubled, List.flatMap_cons, if_neg hc]
              rfl
            · rw [List.append_assoc]
              rfl

/-! ## The text of lexemes -/

def Lexeme.text (quote : α) : Lexeme α → List α
  | .char c => [c]
  | .literal value => quote :: (doubled quote value ++ [quote])

/-- Every text that is read is what its lexemes are written as. -/
theorem eq_text_of_lex (n : ℕ) {cs : List α} (hn : cs.length ≤ n) {out : List (Lexeme α)}
    (h : lex quote .outside cs = some out) : cs = out.flatMap (Lexeme.text quote) := by
  induction n generalizing cs out with
  | zero =>
      rw [List.eq_nil_of_length_eq_zero (Nat.le_zero.mp hn)] at h ⊢
      cases h
      rfl
  | succ n ih =>
      cases cs with
      | nil =>
          cases h
          rfl
      | cons c cs =>
          rw [List.length_cons] at hn
          rw [lex] at h
          split at h
          · next hc =>
            obtain ⟨value, rest, out', rfl, -, hout', rfl⟩ :=
              lex_inside_eq_some _ (Nat.le_refl _) h
            rw [List.length_append, List.length_cons] at hn
            rw [List.flatMap_cons, ← ih (by omega) hout', hc, Lexeme.text, List.nil_append,
              List.cons_append, List.append_assoc]
            rfl
          · obtain ⟨out', hout', rfl⟩ := Option.map_eq_some_iff.mp h
            rw [List.flatMap_cons, ← ih (by omega) hout']
            rfl

theorem mem_doubled {value : List α} {d : α} (hd : d ∈ value) : d ∈ doubled quote value := by
  refine List.mem_flatMap.mpr ⟨d, hd, ?_⟩
  split
  · next hquote =>
    rw [hquote]
    exact List.mem_cons_self
  · exact List.mem_singleton_self d

theorem mem_of_mem_literal {cs : List α} {out : List (Lexeme α)}
    (h : lex quote .outside cs = some out) {value : List α} (hvalue : .literal value ∈ out) {d : α}
    (hd : d ∈ value) : d ∈ cs := by
  rw [eq_text_of_lex _ (Nat.le_refl _) h]
  refine List.mem_flatMap.mpr ⟨.literal value, hvalue, ?_⟩
  exact List.mem_cons_of_mem _ (List.mem_append_left _ (mem_doubled hd))

/-! ## Values written as they are -/

theorem doubled_eq_self {text : List α} (htext : quote ∉ text) : doubled quote text = text := by
  induction text with
  | nil => rfl
  | cons c text ih =>
      have hc : c ≠ quote := fun h => htext (h ▸ List.mem_cons_self)
      have hrest : quote ∉ text := fun h => htext (List.mem_cons_of_mem c h)
      rw [doubled, List.flatMap_cons, if_neg hc, ← doubled, ih hrest]
      rfl

/-- Once one quote is doubled, the two sides never come together again: the left one is ahead by
at least one quote. -/
theorem quotes_ahead (k : ℕ) {text rest rest' : List α} (hrest' : rest'.head? ≠ some quote) :
    List.replicate (k + 1) quote ++ (doubled quote text ++ quote :: rest) ≠
      text ++ quote :: rest' := by
  induction text generalizing k with
  | nil =>
      intro h
      rw [List.replicate_succ, List.cons_append, List.nil_append, List.cons.injEq] at h
      apply hrest'
      rw [← h.2]
      cases k with
      | zero => rfl
      | succ k => rfl
  | cons c text ih =>
      intro h
      rw [List.replicate_succ, List.cons_append, List.cons_append, List.cons.injEq] at h
      obtain ⟨rfl, h⟩ := h
      rw [doubled, List.flatMap_cons, if_pos rfl, ← doubled] at h
      apply ih (k + 1)
      rw [← h, Nat.add_assoc, List.replicate_add, List.append_assoc]
      rfl

/-- A value whose quotes are not doubled is read as itself only if it has none. -/
theorem not_mem_of_doubled {text rest rest' : List α} (hrest' : rest'.head? ≠ some quote)
    (h : doubled quote text ++ quote :: rest = text ++ quote :: rest') : quote ∉ text := by
  induction text with
  | nil => exact List.not_mem_nil
  | cons c text ih =>
      rw [doubled, List.flatMap_cons, ← doubled] at h
      by_cases hc : c = quote
      · rw [if_pos hc, hc] at h
        have htail := List.tail_eq_of_cons_eq h
        exact absurd htail (quotes_ahead 0 hrest')
      · rw [if_neg hc] at h
        intro hmem
        rcases List.mem_cons.mp hmem with heq | hmem
        · exact hc heq.symm
        · exact ih (List.tail_eq_of_cons_eq h) hmem

/-- Between two quotes a value is read back as itself exactly when it has no quote. -/
theorem lex_raw_iff {text rest : List α} (hrest : rest.head? ≠ some quote)
    {out : List (Lexeme α)} :
    lex quote (.inside []) (text ++ quote :: rest) = some (.literal text :: out) ↔
      quote ∉ text ∧ lex quote .outside rest = some out := by
  constructor
  · intro h
    obtain ⟨text', rest', out', hcs, -, hout', hliteral⟩ := lex_inside_eq_some _ (Nat.le_refl _) h
    rw [List.nil_append, List.cons.injEq, Lexeme.literal.injEq] at hliteral
    obtain ⟨rfl, rfl⟩ := hliteral
    have htext := not_mem_of_doubled hrest hcs.symm
    rw [doubled_eq_self htext, List.append_cancel_left_eq, List.cons.injEq] at hcs
    exact ⟨htext, hcs.2 ▸ hout'⟩
  · rintro ⟨htext, hout⟩
    have h := lex_doubled [] text hrest
    rwa [doubled_eq_self htext, hout] at h

end TinyGameServer.QuotedText
