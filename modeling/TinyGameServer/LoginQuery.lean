import Mathlib.Data.List.TakeWhile
import TinyGameServer.MemoryBlock
import TinyGameServer.QuotedText

/-!
# The query text of SelectUser

Name and password go into the text through `%s`, up to their first NUL and without any escaping,
and the text into an array of 128 bytes. It is the query that was meant exactly when neither
contains a NUL or a single quote and both together have at most 64 bytes.
-/

namespace TinyGameServer.LoginQuery

open QuotedText

def bytesOf (s : String) : List UInt8 := s.toList.map fun c => UInt8.ofNat c.toNat

/-- The bytes of a C string, from its start up to the first NUL. -/
def cStr (s : List UInt8) : List UInt8 := s.takeWhile (· ≠ 0)

/-- What `sprintf` writes, without the terminating NUL. -/
def sprintfSql (name password : List UInt8) : List UInt8 :=
  bytesOf "select uid from GameUser where username = '" ++ cStr name ++
    bytesOf "' and password = '" ++ cStr password ++ bytesOf "';"

/-- The text that `PQexec` is given. The array `sql` is zeroed and has 128 bytes. -/
def sqlText (name password : List UInt8) : Option (List UInt8) := do
  let sql ← (⟨fun _ => 0⟩ : Block 128).store 0 (sprintfSql name password ++ [0])
  return cStr (sql.read 0 128)

def quote : UInt8 := 39

/-- The statement that looks for the user with this name and this password. -/
def statement (name password : List UInt8) : List (Lexeme UInt8) :=
  (bytesOf "select uid from GameUser where username = ").map .char ++ .literal name ::
    ((bytesOf " and password = ").map .char ++ .literal password :: (bytesOf ";").map .char)

/-! ## The array -/

theorem not_mem_cStr (s : List UInt8) : 0 ∉ cStr s := by
  intro h
  rw [cStr] at h
  exact absurd (List.mem_takeWhile_imp h) (by decide)

theorem cStr_append_nul {text : List UInt8} (htext : 0 ∉ text) (rest : List UInt8) :
    cStr (text ++ 0 :: rest) = text := by
  have hall : ∀ c ∈ text, decide (c ≠ 0) = true :=
    fun c hc => decide_eq_true fun h => htext (h ▸ hc)
  rw [cStr, List.takeWhile_append_of_pos hall, List.takeWhile_cons_of_neg (by decide),
    List.append_nil]

theorem cStr_eq_self_iff (s : List UInt8) : cStr s = s ↔ 0 ∉ s := by
  constructor
  · intro h
    rw [← h]
    exact not_mem_cStr s
  · intro h
    rw [cStr, List.takeWhile_eq_self_iff]
    exact fun c hc => decide_eq_true fun heq => h (heq ▸ hc)

theorem not_mem_sprintfSql (name password : List UInt8) : 0 ∉ sprintfSql name password := by
  have h₁ : 0 ∉ bytesOf "select uid from GameUser where username = '" := by decide
  have h₂ : 0 ∉ bytesOf "' and password = '" := by decide
  have h₃ : 0 ∉ bytesOf "';" := by decide
  simp only [sprintfSql, List.mem_append, h₁, h₂, h₃, not_mem_cStr, or_self, not_false_eq_true]

theorem length_sprintfSql (name password : List UInt8) :
    (sprintfSql name password).length = 63 + (cStr name).length + (cStr password).length := by
  have h₁ : (bytesOf "select uid from GameUser where username = '").length = 43 := by decide
  have h₂ : (bytesOf "' and password = '").length = 18 := by decide
  have h₃ : (bytesOf "';").length = 2 := by decide
  simp only [sprintfSql, List.length_append, h₁, h₂, h₃]
  omega

/-- A text that is printed into a zeroed array is read back from it, if it fits. -/
theorem printed_eq {text : List UInt8} (htext : 0 ∉ text) (n : ℕ) :
    ((⟨fun _ => 0⟩ : Block n).store 0 (text ++ [0])).map (fun b => cStr (b.read 0 n)) =
      if text.length < n then some text else none := by
  have hlen : (text ++ [0]).length = text.length + 1 := List.length_append
  split
  · next hfit =>
    obtain ⟨k, hk⟩ := Nat.exists_eq_add_of_le (Nat.succ_le_of_lt hfit)
    rw [Nat.succ_eq_add_one, ← hlen] at hk
    rw [Block.store_eq_some (by omega), Option.map_some]
    subst hk
    rw [Block.read_add, Block.read_write_self, List.append_assoc, List.singleton_append,
      cStr_append_nul htext]
  · next hlong =>
    rw [Block.store_eq_none (by omega)]
    rfl

theorem sqlText_eq (name password : List UInt8) :
    sqlText name password = if (cStr name).length + (cStr password).length ≤ 64 then
      some (sprintfSql name password) else none := by
  have hread : sqlText name password =
      ((⟨fun _ => 0⟩ : Block 128).store 0 (sprintfSql name password ++ [0])).map
        fun sql => cStr (sql.read 0 128) := by
    rw [sqlText]
    cases (⟨fun _ => 0⟩ : Block 128).store 0 (sprintfSql name password ++ [0]) <;> rfl
  rw [hread, printed_eq (not_mem_sprintfSql name password), length_sprintfSql]
  congr 1
  rw [eq_iff_iff]
  omega

/-! ## The statement -/

theorem lex_sprintfSql (name password : List UInt8) :
    lex quote .outside (sprintfSql name password) =
      (lex quote (.inside []) (cStr name ++ quote :: (bytesOf " and password = " ++
        quote :: (cStr password ++ quote :: bytesOf ";")))).map
        ((bytesOf "select uid from GameUser where username = ").map Lexeme.char ++ ·) := by
  have hfirst : bytesOf "select uid from GameUser where username = '" =
      bytesOf "select uid from GameUser where username = " ++ [quote] := by decide
  have hmiddle : bytesOf "' and password = '" =
      quote :: (bytesOf " and password = " ++ [quote]) := by decide
  have hlast : bytesOf "';" = quote :: bytesOf ";" := by decide
  have htext : quote ∉ bytesOf "select uid from GameUser where username = " := by decide
  rw [← lex_outside_quote, ← lex_outside_append htext, sprintfSql, hfirst, hmiddle, hlast]
  simp only [List.append_assoc, List.cons_append, List.nil_append]

/-- The text of two strings that are printed whole is the statement about them exactly when they
have no quotes. -/
theorem lex_sprintfSql_iff {name password : List UInt8} (hname : cStr name = name)
    (hpassword : cStr password = password) :
    lex quote .outside (sprintfSql name password) = some (statement name password) ↔
      quote ∉ name ∧ quote ∉ password := by
  have hmiddle : quote ∉ bytesOf " and password = " := by decide
  have hlast : lex quote .outside (bytesOf ";") = some ((bytesOf ";").map Lexeme.char) := by
    decide
  have inj : ∀ pre : List (Lexeme UInt8), ∀ o : Option (List (Lexeme UInt8)), ∀ out,
      o.map (pre ++ ·) = some (pre ++ out) ↔ o = some out := by
    intro pre o out
    cases o with
    | none => simp
    | some out' => simp
  have hspace : ∀ rest, (bytesOf " and password = " ++ rest).head? ≠ some quote :=
    fun _ h => absurd (Option.some.inj h) (by decide)
  rw [lex_sprintfSql, statement, inj, hname, hpassword, lex_raw_iff (hspace _),
    lex_outside_append hmiddle, inj, lex_outside_quote, lex_raw_iff (by decide)]
  simp only [hlast, and_true]

/-- A string with a NUL is not printed whole, and the rest of it is nowhere in the text. -/
theorem nul_free_of_statement {name password : List UInt8}
    (h : lex quote .outside (sprintfSql name password) = some (statement name password)) :
    0 ∉ name ∧ 0 ∉ password := by
  have hname : Lexeme.literal name ∈ statement name password :=
    List.mem_append_right _ List.mem_cons_self
  have hpassword : Lexeme.literal password ∈ statement name password := by
    apply List.mem_append_right
    apply List.mem_cons_of_mem
    exact List.mem_append_right _ List.mem_cons_self
  have hnul := not_mem_sprintfSql name password
  constructor
  · intro hmem
    exact hnul (mem_of_mem_literal h hname hmem)
  · intro hmem
    exact hnul (mem_of_mem_literal h hpassword hmem)

/-- The text fits into the array and is the statement that was meant if and only if name and
password contain no NUL and no single quote and are at most 64 bytes long together. -/
theorem login_query_iff (name password : List UInt8) :
    (∃ sql, sqlText name password = some sql ∧
      lex quote .outside sql = some (statement name password)) ↔
    (0 ∉ name ∧ quote ∉ name) ∧ (0 ∉ password ∧ quote ∉ password) ∧
      name.length + password.length ≤ 64 := by
  constructor
  · rintro ⟨sql, hsql, hlex⟩
    rw [sqlText_eq] at hsql
    split at hsql
    · next hfit =>
      cases hsql
      obtain ⟨hname, hpassword⟩ := nul_free_of_statement hlex
      have hcname := (cStr_eq_self_iff name).mpr hname
      have hcpassword := (cStr_eq_self_iff password).mpr hpassword
      obtain ⟨hqname, hqpassword⟩ := (lex_sprintfSql_iff hcname hcpassword).mp hlex
      rw [hcname, hcpassword] at hfit
      exact ⟨⟨hname, hqname⟩, ⟨hpassword, hqpassword⟩, hfit⟩
    · cases hsql
  · rintro ⟨⟨hname, hqname⟩, ⟨hpassword, hqpassword⟩, hfit⟩
    have hcname := (cStr_eq_self_iff name).mpr hname
    have hcpassword := (cStr_eq_self_iff password).mpr hpassword
    refine ⟨sprintfSql name password, ?_, ?_⟩
    · rw [sqlText_eq, hcname, hcpassword, if_pos hfit]
    · exact (lex_sprintfSql_iff hcname hcpassword).mpr ⟨hqname, hqpassword⟩

/-- The name `x' or '1'='1` with an empty password closes its own literal. -/
theorem quote_closes_literal :
    ¬ ∃ sql, sqlText (bytesOf "x' or '1'='1") [] = some sql ∧
      lex quote .outside sql = some (statement (bytesOf "x' or '1'='1") []) := by
  rintro ⟨sql, hsql, hlex⟩
  have hquote : quote ∈ bytesOf "x' or '1'='1" := by decide
  rw [sqlText_eq] at hsql
  split at hsql
  · cases hsql
    exact ((lex_sprintfSql_iff (by decide) rfl).mp hlex).1 hquote
  · cases hsql

end TinyGameServer.LoginQuery
