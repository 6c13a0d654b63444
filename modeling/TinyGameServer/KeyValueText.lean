import Mathlib.Data.List.Basic

/-!
# Texts of keywords and values

A text is a sequence of settings `keyword=value`, with a separator between any two of them. A parser
`ReadsPlain` if it gives settings back that need no quotes; nothing else is said of it. Whoever puts
a value at the end of a text can put further settings behind it.
-/

namespace TinyGameServer.KeyValueText

structure Symbols (α : Type) where
  eq : α
  sep : α
  /-- What a value without quotes around it must not have in it. -/
  special : α → Bool
  sep_special : special sep = true

variable {α : Type} (s : Symbols α)

def setting (p : List α × List α) : List α := p.1 ++ s.eq :: p.2

def suffix (settings : List (List α × List α)) : List α :=
  settings.flatMap fun p => s.sep :: setting s p

def join : List (List α × List α) → List α
  | [] => []
  | p :: settings => setting s p ++ suffix s settings

def Plain (value : List α) : Prop := value ≠ [] ∧ ∀ c ∈ value, s.special c = false

/-- Values that need no quotes, for some of the keywords, each at most once. -/
structure Writable (keywords : List (List α)) (settings : List (List α × List α)) : Prop where
  known : ∀ p ∈ settings, p.1 ∈ keywords
  once : (settings.map Prod.fst).Nodup
  plain : ∀ p ∈ settings, Plain s p.2

abbrev Table (α : Type) : Type := List α → Option (List α)

variable [DecidableEq α]

instance (value : List α) : Decidable (Plain s value) := inferInstanceAs (Decidable (_ ∧ _))

def table (settings : List (List α × List α)) : Table α := (settings.lookup ·)

def ReadsPlain (keywords : List (List α)) (parse : List α → Option (Table α)) : Prop :=
  ∀ settings, settings ≠ [] → Writable s keywords settings →
    parse (join s settings) = some (table settings)

/-- A parser that knows no quotes. -/
def split (text : List α) : Option (Table α) :=
  some (table ((text.splitOn s.sep).map fun part =>
    (part.takeWhile (· ≠ s.eq), (part.dropWhile (· ≠ s.eq)).tail)))

variable {s}

omit [DecidableEq α] in
theorem suffix_cons (p : List α × List α) (settings : List (List α × List α)) :
    suffix s (p :: settings) = s.sep :: (setting s p ++ suffix s settings) := List.flatMap_cons

omit [DecidableEq α] in
theorem suffix_append (settings more : List (List α × List α)) :
    suffix s (settings ++ more) = suffix s settings ++ suffix s more := List.flatMap_append

omit [DecidableEq α] in
/-- The last value brings settings with it. -/
theorem join_concat (settings : List (List α × List α)) (keyword value : List α)
    (more : List (List α × List α)) :
    join s (settings ++ [(keyword, value ++ suffix s more)]) =
      join s (settings ++ (keyword, value) :: more) := by
  have hend : setting s (keyword, value ++ suffix s more) ++ suffix s [] =
      setting s (keyword, value) ++ suffix s more := by
    simp [setting, suffix]
  cases settings with
  | nil => exact hend
  | cons p settings =>
      rw [List.cons_append, List.cons_append, join, join, suffix_append, suffix_append, suffix_cons,
        suffix_cons, hend]

theorem splitOn_join (p : List α × List α) (settings : List (List α × List α))
    (h : ∀ q ∈ p :: settings, s.sep ∉ setting s q) :
    (setting s p ++ suffix s settings).splitOn s.sep = (p :: settings).map (setting s) := by
  induction settings generalizing p with
  | nil =>
      rw [suffix, List.flatMap_nil, List.append_nil]
      exact List.splitOn_eq_singleton (h p List.mem_cons_self)
  | cons q settings ih =>
      obtain ⟨hp, hrest⟩ := List.forall_mem_cons.mp h
      rw [suffix_cons, List.splitOn_append_cons_self_of_not_mem hp, ih q hrest]
      rfl

theorem split_reads {keywords : List (List α)} (heq : s.sep ≠ s.eq)
    (hwords : ∀ k ∈ keywords, s.sep ∉ k ∧ s.eq ∉ k) : ReadsPlain s keywords (split s) := by
  intro settings hne hsettings
  cases settings with
  | nil => exact absurd rfl hne
  | cons p settings =>
      have hsep : ∀ q ∈ p :: settings, s.sep ∉ setting s q := by
        intro q hq hmem
        rcases List.mem_append.mp hmem with hkeyword | hvalue
        · exact (hwords q.1 (hsettings.known q hq)).1 hkeyword
        · rcases List.mem_cons.mp hvalue with hsame | hvalue
          · exact heq hsame
          · have hplain := (hsettings.plain q hq).2 s.sep hvalue
            rw [s.sep_special] at hplain
            cases hplain
      have hread : ∀ q ∈ p :: settings,
          ((setting s q).takeWhile (· ≠ s.eq), ((setting s q).dropWhile (· ≠ s.eq)).tail) = q := by
        intro q hq
        have hword : ∀ c ∈ q.1, (decide (c ≠ s.eq)) = true := fun c hc =>
          decide_eq_true fun hsame => (hwords q.1 (hsettings.known q hq)).2 (hsame ▸ hc)
        rw [setting, List.takeWhile_append_of_pos hword, List.dropWhile_append_of_pos hword]
        simp
      rw [split, join, splitOn_join p settings hsep, List.map_map, Function.comp_def,
        List.map_congr_left hread, List.map_id']

end TinyGameServer.KeyValueText
