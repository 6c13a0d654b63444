import TinyGameServer.HostPort
import TinyGameServer.KeyValueText
import TinyGameServer.LoginQuery

/-!
# The connection text of PGManager

`Connect` prints host, port and password into an array of 128 bytes, without quoting them, and hands
the text to `PQconnectdb`, whose parser is a parameter here. The text fits if host, port and
password have at most 72 bytes together. If they need no quotes the settings are the ones that were
meant; a password with a blank in it can bring further settings.
-/

namespace TinyGameServer.ConnInfo

open HostPort KeyValueText LoginQuery

/-- White space, quotes, backslashes and the end of the text are special. -/
def symbols : Symbols UInt8 where
  eq := 61
  sep := 32
  special c := isSpace c || c == 39 || c == 92 || c == 0
  sep_special := by decide

/-- What `sprintf` writes, without the terminating NUL. -/
def sprintfConninfo (host : List UInt8) (port : Int32) (password : List UInt8) : List UInt8 :=
  bytesOf "hostaddr=" ++ cStr host ++ bytesOf " port=" ++ intText port.toInt ++
    bytesOf " dbname=" ++ bytesOf "postgres" ++ bytesOf " user=" ++ bytesOf "postgres" ++
    bytesOf " password=" ++ cStr password

/-- The text that `PQconnectdb` is given. The array `conninfo` is zeroed and has 128 bytes. -/
def conninfo (addr password : List UInt8) : Option (List UInt8) := do
  let (host, port) ← splitHostPort addr
  let text ← (⟨fun _ => 0⟩ : Block 128).store 0 (sprintfConninfo host port password ++ [0])
  return cStr (text.read 0 128)

def settings (host : List UInt8) (port : Int32) (password : List UInt8) :
    List (List UInt8 × List UInt8) :=
  [(bytesOf "hostaddr", host), (bytesOf "port", intText port.toInt),
    (bytesOf "dbname", bytesOf "postgres"), (bytesOf "user", bytesOf "postgres"),
    (bytesOf "password", password)]

variable {addr host password : List UInt8} {port : Int32}

/-! ## The text -/

theorem bounds_of_mem_intText {value : Int} {b : UInt8} (hb : b ∈ intText value) :
    45 ≤ b.toNat ∧ b.toNat ≤ 57 := by
  unfold intText at hb
  split at hb
  · rcases List.mem_cons.mp hb with rfl | hb
    · exact ⟨Nat.le_refl 45, by decide⟩
    · have hdigit := bounds_of_mem_portText hb
      omega
  · have hdigit := bounds_of_mem_portText hb
    omega

theorem cStr_of_plain {value : List UInt8} (h : Plain symbols value) : cStr value = value := by
  rw [cStr_eq_self_iff]
  intro hnul
  cases h.2 0 hnul

theorem sprintfConninfo_eq (host : List UInt8) (port : Int32) (password : List UInt8) :
    sprintfConninfo host port password =
      join symbols (settings (cStr host) port (cStr password)) := by
  have hhost : bytesOf "hostaddr=" = bytesOf "hostaddr" ++ [61] := by decide
  have hport : bytesOf " port=" = 32 :: (bytesOf "port" ++ [61]) := by decide
  have hdb : bytesOf " dbname=" = 32 :: (bytesOf "dbname" ++ [61]) := by decide
  have huser : bytesOf " user=" = 32 :: (bytesOf "user" ++ [61]) := by decide
  have hpassword : bytesOf " password=" = 32 :: (bytesOf "password" ++ [61]) := by decide
  simp only [sprintfConninfo, settings, join, setting, suffix, symbols, hhost, hport, hdb, huser,
    hpassword, List.flatMap_cons, List.flatMap_nil, List.append_assoc, List.cons_append,
    List.nil_append, List.append_nil]

theorem length_sprintfConninfo (host : List UInt8) (port : Int32) (password : List UInt8) :
    (sprintfConninfo host port password).length =
      55 + ((cStr host).length + (intText port.toInt).length + (cStr password).length) := by
  have hhost : (bytesOf "hostaddr=").length = 9 := by decide
  have hport : (bytesOf " port=").length = 6 := by decide
  have hdb : (bytesOf " dbname=").length = 8 := by decide
  have hpostgres : (bytesOf "postgres").length = 8 := by decide
  have huser : (bytesOf " user=").length = 6 := by decide
  have hpassword : (bytesOf " password=").length = 10 := by decide
  simp only [sprintfConninfo, List.length_append, hhost, hport, hdb, hpostgres, huser, hpassword]
  omega

theorem not_mem_sprintfConninfo (host : List UInt8) (port : Int32) (password : List UInt8) :
    0 ∉ sprintfConninfo host port password := by
  have hhost : 0 ∉ bytesOf "hostaddr=" := by decide
  have hport : 0 ∉ bytesOf " port=" := by decide
  have hdb : 0 ∉ bytesOf " dbname=" := by decide
  have huser : 0 ∉ bytesOf " user=" := by decide
  have hpostgres : 0 ∉ bytesOf "postgres" := by decide
  have hpassword : 0 ∉ bytesOf " password=" := by decide
  have hnumber : 0 ∉ intText port.toInt := fun h => absurd (bounds_of_mem_intText h).1 (by decide)
  simp only [sprintfConninfo, List.mem_append, hhost, hport, hdb, huser, hpostgres, hpassword,
    hnumber, not_mem_cStr, or_self, not_false_eq_true]

theorem conninfo_eq (h : splitHostPort addr = some (host, port)) (password : List UInt8) :
    conninfo addr password =
      if (cStr host).length + (intText port.toInt).length + (cStr password).length ≤ 72 then
        some (sprintfConninfo host port password) else none := by
  have hread : conninfo addr password =
      ((⟨fun _ => 0⟩ : Block 128).store 0 (sprintfConninfo host port password ++ [0])).map
        fun text => cStr (text.read 0 128) := by
    simp only [conninfo, h, Option.bind_eq_bind, Option.bind_some, Option.map_eq_bind]
    rfl
  rw [hread, printed_eq (not_mem_sprintfConninfo host port password), length_sprintfConninfo]
  congr 1
  rw [eq_iff_iff]
  omega

/-! ## The settings -/

variable {keywords : List (List UInt8)} {more : List (List UInt8 × List UInt8)}

theorem not_mem_suffix (hkeywords : ∀ k ∈ keywords, 0 ∉ k) (hknown : ∀ p ∈ more, p.1 ∈ keywords)
    (hplain : ∀ p ∈ more, Plain symbols p.2) : 0 ∉ suffix symbols more := by
  intro hmem
  obtain ⟨p, hp, hmem⟩ := List.mem_flatMap.mp hmem
  rcases List.mem_cons.mp hmem with hsep | hmem
  · exact absurd hsep (by decide)
  · rcases List.mem_append.mp hmem with hkeyword | hvalue
    · exact hkeywords p.1 (hknown p hp) hkeyword
    · rcases List.mem_cons.mp hvalue with heq | hvalue
      · exact absurd heq (by decide)
      · exact (cStr_eq_self_iff p.2).mp (cStr_of_plain (hplain p hp)) hvalue

/-- For every parser that reads plain values as they are: the text fits into its 128 bytes if and
only if host, port and password have at most 72 bytes together, up to their NULs; and the settings
in it are the five that are meant, and those that are written behind the password. -/
theorem conninfo_read {parse : List UInt8 → Option (Table UInt8)}
    (hkeywords : ∀ k ∈ keywords, 0 ∉ k) (hparse : ReadsPlain symbols keywords parse)
    (hsplit : splitHostPort addr = some (host, port)) :
    (∀ password, (conninfo addr password).isSome ↔
      (cStr host).length + (intText port.toInt).length + (cStr password).length ≤ 72) ∧
    ∀ password more text, Writable symbols keywords (settings host port password ++ more) →
      conninfo addr (password ++ suffix symbols more) = some text →
      parse text = some (table (settings host port password ++ more)) := by
  constructor
  · intro password
    rw [conninfo_eq hsplit]
    split
    · next hfit => exact iff_of_true rfl hfit
    · next hfit => exact iff_of_false Bool.false_ne_true hfit
  · intro password more text hwritable htext
    obtain ⟨hold, hmore⟩ := List.forall_mem_append.mp hwritable.plain
    have hhost : Plain symbols host := hold (bytesOf "hostaddr", host) (by simp [settings])
    have hpassword : Plain symbols password :=
      hold (bytesOf "password", password) (by simp [settings])
    have hknown := (List.forall_mem_append.mp hwritable.known).2
    have hwhole : cStr (password ++ suffix symbols more) = password ++ suffix symbols more := by
      rw [cStr_eq_self_iff, List.mem_append, not_or]
      exact ⟨(cStr_eq_self_iff password).mp (cStr_of_plain hpassword),
        not_mem_suffix hkeywords hknown hmore⟩
    -- the last one of the five settings takes the others with it
    have hbehind : join symbols (settings host port (password ++ suffix symbols more)) =
        join symbols (settings host port password ++ more) := join_concat
      [(bytesOf "hostaddr", host), (bytesOf "port", intText port.toInt),
        (bytesOf "dbname", bytesOf "postgres"), (bytesOf "user", bytesOf "postgres")]
      (bytesOf "password") password more
    rw [conninfo_eq hsplit] at htext
    split at htext
    · rw [← Option.some.inj htext, sprintfConninfo_eq, cStr_of_plain hhost, hwhole, hbehind]
      exact hparse _ (List.cons_ne_nil _ _) hwritable
    · cases htext

def someKeywords : List (List UInt8) :=
  ["hostaddr", "port", "dbname", "user", "password", "sslmode"].map bytesOf

/-- The address and the password of the data server, and a password that turns encryption off. -/
theorem data_server_conninfo :
    (∃ text, conninfo (bytesOf "0.0.0.0:5432") (bytesOf "george") = some text ∧
      split symbols text =
        some (table (settings (bytesOf "0.0.0.0") (Int32.ofNat 5432) (bytesOf "george")))) ∧
    ∃ text, conninfo (bytesOf "0.0.0.0:5432") (bytesOf "george sslmode=disable") = some text ∧
      split symbols text =
        some (table (settings (bytesOf "0.0.0.0") (Int32.ofNat 5432) (bytesOf "george") ++
          [(bytesOf "sslmode", bytesOf "disable")])) := by
  have hsplit : splitHostPort (bytesOf "0.0.0.0:5432") =
      some (bytesOf "0.0.0.0", Int32.ofNat 5432) := by decide
  have hreads : ReadsPlain symbols someKeywords (split symbols) :=
    split_reads (by decide) (by decide)
  obtain ⟨hfits, hread⟩ := conninfo_read (by decide) hreads hsplit
  constructor
  · obtain ⟨text, htext⟩ := Option.isSome_iff_exists.mp ((hfits (bytesOf "george")).mpr (by decide))
    exact ⟨text, htext, hread (bytesOf "george") [] text
      ⟨by decide, by decide, by decide⟩ htext⟩
  · obtain ⟨text, htext⟩ := Option.isSome_iff_exists.mp
      ((hfits (bytesOf "george sslmode=disable")).mpr (by decide))
    exact ⟨text, htext, hread (bytesOf "george") [(bytesOf "sslmode", bytesOf "disable")] text
      ⟨by decide, by decide, by decide⟩ htext⟩

end TinyGameServer.ConnInfo
