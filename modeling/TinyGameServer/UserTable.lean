import TinyGameServer.HostPort
import TinyGameServer.LoginPipeline
import TinyGameServer.LoginQuery

/-!
# What SelectUser finds

`SelectUser` takes the uid from the last row of the result and has -1 for a result without rows and
for no result at all. `pqExec` stands for `PQexec` on a connection. A server with the table
`GameUser` sends the uids of the matching users as decimal text, in any order.
-/

namespace TinyGameServer.UserTable

open HostPort LoginQuery QuotedText

/-- With base 10. A value that is out of range becomes the nearest one. -/
def strtoll (text : List UInt8) : Int64 :=
  let (negative, text) := sign (text.dropWhile isSpace)
  let magnitude : ℕ := DecimalText.leadingValue (text.map Char.ofUInt8)
  let value : Int := if negative then -magnitude else magnitude
  Int64.ofInt (max (-2 ^ 63) (min value (2 ^ 63 - 1)))

inductive ExecStatusType where
  | PGRES_EMPTY_QUERY
  | PGRES_COMMAND_OK
  | PGRES_TUPLES_OK
  | PGRES_COPY_OUT
  | PGRES_COPY_IN
  | PGRES_BAD_RESPONSE
  | PGRES_NONFATAL_ERROR
  | PGRES_FATAL_ERROR
  deriving DecidableEq

/-- The values are those of the first column. -/
structure PGresult where
  status : ExecStatusType
  values : List (List UInt8)

/-- The null pointer is a fatal error. -/
def pqResultStatus : Option PGresult → ExecStatusType
  | none => .PGRES_FATAL_ERROR
  | some res => res.status

/-- `PQgetvalue` for the rows that `PQntuples` counts. -/
def pqValues : Option PGresult → List (List UInt8)
  | none => []
  | some res => res.values

variable (pqExec : List UInt8 → Option PGresult)

/-- `SelectUser`, undefined when the query overflows its array. -/
def selectUser (name password : List UInt8) : Option Int64 := do
  let sql ← sqlText name password
  let res := pqExec sql
  if res.isSome ∨ pqResultStatus res = .PGRES_COMMAND_OK ∨
      pqResultStatus res = .PGRES_TUPLES_OK then
    return (pqValues res).foldl (fun _ c => strtoll c) (-1)
  else return -1

/-! ## The table -/

structure GameUser where
  uid : Int64
  username : List UInt8
  password : List UInt8

namespace GameUser

def Matches (u : GameUser) (name password : List UInt8) : Prop :=
  u.username = name ∧ u.password = password

instance (u : GameUser) (name password : List UInt8) : Decidable (u.Matches name password) :=
  inferInstanceAs (Decidable (_ ∧ _))

end GameUser

def bigintText (uid : Int64) : List UInt8 := intText uid.toInt

/-- The query for a user is answered from the table. -/
def Serves (table : List GameUser) : Prop :=
  ∀ sql name password, lex quote .outside sql = some (statement name password) →
    (pqValues (pqExec sql)).Perm
      ((table.filter (·.Matches name password)).map fun u => bigintText u.uid)

/-- The uid of a user with this name and password, or -1 if there is none. -/
def Selected (table : List GameUser) (name password : List UInt8) (uid : Int64) : Prop :=
  (uid = -1 ∧ ∀ u ∈ table, ¬ u.Matches name password) ∨
    ∃ u ∈ table, u.Matches name password ∧ u.uid = uid

/-! ## Decimal text and back -/

theorem sign_bigintText (uid : Int64) : sign ((bigintText uid).dropWhile isSpace) =
    (decide (uid.toInt < 0), portText 0 uid.toInt.natAbs) := by
  unfold bigintText intText
  by_cases hneg : uid.toInt < 0
  · have hminus : isSpace 45 = false := by decide
    rw [if_pos hneg, decide_eq_true hneg, List.dropWhile_cons_of_neg (by simp [hminus])]
    rfl
  · rw [if_neg hneg, decide_eq_false hneg]
    exact sign_portText 0 uid.toInt.natAbs

theorem strtoll_bigintText (uid : Int64) : strtoll (bigintText uid) = uid := by
  have hlow := uid.le_toInt
  have hhigh := uid.toInt_lt
  simp only [strtoll, sign_bigintText, leadingValue_portText, decide_eq_true_eq]
  have hvalue : (if uid.toInt < 0 then -(uid.toInt.natAbs : Int) else uid.toInt.natAbs) =
      uid.toInt := by
    split
    · omega
    · omega
  rw [hvalue, min_eq_left (by omega), max_eq_right (by omega), Int64.ofInt_toInt]

/-! ## The rows -/

theorem foldl_values (ret : Int64) (values : List (List UInt8)) :
    values.foldl (fun _ c => strtoll c) ret = ret ∧ values = [] ∨
      ∃ value ∈ values, values.foldl (fun _ c => strtoll c) ret = strtoll value := by
  induction values generalizing ret with
  | nil => exact .inl ⟨rfl, rfl⟩
  | cons value values ih =>
      right
      rcases ih (strtoll value) with ⟨h, -⟩ | ⟨last, hlast, h⟩
      · exact ⟨value, List.mem_cons_self, h⟩
      · exact ⟨last, List.mem_cons_of_mem value hlast, h⟩

theorem selectUser_eq (name password : List UInt8) : selectUser pqExec name password =
    (sqlText name password).map fun sql =>
      (pqValues (pqExec sql)).foldl (fun _ c => strtoll c) (-1) := by
  rw [selectUser]
  cases sqlText name password with
  | none => rfl
  | some sql =>
      cases hres : pqExec sql with
      | none => simp [hres, pqResultStatus, pqValues]
      | some res => simp [hres]

variable {pqExec} {table : List GameUser} {name password : List UInt8}

/-- The values of an answer are the uids of the users that match, so the last one is one of them,
and without one nobody matches. -/
theorem Serves.selected (h : Serves pqExec table) {sql : List UInt8}
    (hsql : lex quote .outside sql = some (statement name password)) :
    Selected table name password
      ((pqValues (pqExec sql)).foldl (fun _ c => strtoll c) (-1)) := by
  have hperm := h sql name password hsql
  rcases foldl_values (-1) (pqValues (pqExec sql)) with ⟨hret, hnil⟩ | ⟨value, hvalue, hret⟩
  · left
    rw [hnil] at hperm
    refine ⟨hret, fun u hu hmatches => ?_⟩
    have hmem : u ∈ table.filter (·.Matches name password) :=
      List.mem_filter.mpr ⟨hu, decide_eq_true hmatches⟩
    rw [List.map_eq_nil_iff.mp hperm.symm.eq_nil] at hmem
    exact absurd hmem List.not_mem_nil
  · right
    obtain ⟨u, hu, rfl⟩ := List.mem_map.mp (hperm.mem_iff.mp hvalue)
    obtain ⟨hmem, hmatches⟩ := List.mem_filter.mp hu
    exact ⟨u, hmem, of_decide_eq_true hmatches, by rw [hret, strtoll_bigintText]⟩

structure Clean (name password : List UInt8) : Prop where
  name_nul : 0 ∉ name
  name_quote : quote ∉ name
  password_nul : 0 ∉ password
  password_quote : quote ∉ password
  fits : name.length + password.length ≤ 64

theorem Clean.selectUser_selected (hclean : Clean name password) (h : Serves pqExec table) :
    ∃ uid, selectUser pqExec name password = some uid ∧ Selected table name password uid := by
  have hname := (cStr_eq_self_iff name).mpr hclean.name_nul
  have hpassword := (cStr_eq_self_iff password).mpr hclean.password_nul
  have hlex := (lex_sprintfSql_iff hname hpassword).mpr
    ⟨hclean.name_quote, hclean.password_quote⟩
  refine ⟨_, ?_, h.selected hlex⟩
  rw [selectUser_eq, sqlText_eq, hname, hpassword, if_pos hclean.fits]
  rfl

/-! ## A server for every table -/

theorem statement_inj {name' password' : List UInt8}
    (h : statement name password = statement name' password') :
    name = name' ∧ password = password' := by
  simp only [statement, List.append_cancel_left_eq, List.cons.injEq, Lexeme.literal.injEq] at h
  exact ⟨h.1, h.2.1⟩

/-- It answers no other query. -/
def answer (table : List GameUser) (sql : List UInt8) : Option PGresult :=
  (lex quote .outside sql).map fun lexemes =>
    { status := .PGRES_TUPLES_OK
      values := (table.filter fun u => statement u.username u.password = lexemes).map
        fun u => bigintText u.uid }

theorem answer_serves (table : List GameUser) : Serves (answer table) table := by
  intro sql name password hsql
  have hfilter : (table.filter fun u => decide (statement u.username u.password =
      statement name password)) = table.filter (·.Matches name password) := by
    apply List.filter_congr
    intro u _
    rw [decide_eq_decide]
    constructor
    · exact statement_inj
    · rintro ⟨rfl, rfl⟩
      rfl
  rw [answer, hsql, Option.map_some, pqValues, hfilter]

/-! ## The data server on the table -/

structure Relayed where
  serialId : Int64
  login : Login
  clean : Clean login.name login.pass

namespace Relayed

def bytes (r : Relayed) : List UInt8 := r.login.relayed r.serialId

/-- A success with the uid of the user, or an error if there is none. -/
def Answered (table : List GameUser) (r : Relayed) (reply : List UInt8) : Prop :=
  ∃ uid, Selected table r.login.name r.login.pass uid ∧
    reply = if uid = -1 then DataServer.errorFrame .big r.serialId
      else DataServer.successFrame .big r.serialId uid

end Relayed

/-- What the callback of the data server calls. No clean login overflows the query. -/
def select (pqExec : List UInt8 → Option PGresult) : SelectUser :=
  fun name password => (selectUser pqExec name password).getD (-1)

theorem Clean.select_selected (hclean : Clean name password) (h : Serves pqExec table) :
    Selected table name password (select pqExec name password) := by
  obtain ⟨uid, hselect, hselected⟩ := hclean.selectUser_selected h
  rw [select, hselect]
  exact hselected

/-- On a big-endian machine the data server answers every relayed login from the table, in order
and under its serial id, however the logins are cut on their way. -/
theorem data_server_authenticates (pqExec : List UInt8 → Option PGresult)
    (table : List GameUser) (hserves : Serves pqExec table) (logins : List Relayed)
    (chunks : List (List UInt8)) (hcut : CutAtFrames (logins.map Relayed.bytes) chunks) :
    ∃ data replies,
      run (Inbox.step (DataServer.readCallback .big (select pqExec)).onQueue) .init
        (chunks.map .data) = some data ∧ data.unread = [] ∧
      LoginSystem.wireBytes (data.returned.flatMap Prod.snd) = some replies ∧
      List.Forall₂ (Relayed.Answered table) logins replies := by
  obtain ⟨data, hdata, hdone, hreplied⟩ := Inbox.run_frames_init Prod.snd rfl
    (fun r _ => r.login.takesWhole_relayed r.serialId (select pqExec))
    (fun r _ => List.cons_ne_nil _ _) hcut
  rw [← DataServer.readCallback_onQueue] at hdata
  refine ⟨data, logins.map fun r =>
    if select pqExec r.login.name r.login.pass = -1 then DataServer.errorFrame .big r.serialId
    else DataServer.successFrame .big r.serialId (select pqExec r.login.name r.login.pass),
    hdata, hdone, ?_, ?_⟩
  · rw [hreplied]
    apply wireBytes_flatMap
    intro r _
    obtain ⟨buf, hbuf, -, hunread⟩ := DataServer.reply_spec .big r.serialId
      (select pqExec r.login.name r.login.pass)
    exact ⟨buf, hbuf, hunread⟩
  · rw [List.forall₂_map_right_iff, List.forall₂_same]
    intro r _
    exact ⟨select pqExec r.login.name r.login.pass, r.clean.select_selected hserves, rfl⟩

def namesakes : List GameUser := [⟨100, [97], [98]⟩, ⟨-9223372036854775808, [97], [99]⟩]

def namesakeLogin : Relayed where
  serialId := 5
  login := ⟨[97], [99], by decide⟩
  clean := ⟨by decide, by decide, by decide, by decide, by decide⟩

theorem namesake_authenticates : ∃ data replies,
    run (Inbox.step (DataServer.readCallback .big (select (answer namesakes))).onQueue) .init
      [.data namesakeLogin.bytes] = some data ∧ data.unread = [] ∧
    LoginSystem.wireBytes (data.returned.flatMap Prod.snd) = some replies ∧
    List.Forall₂ (Relayed.Answered namesakes) [namesakeLogin] replies := by
  have hwhole : IsCut namesakeLogin.bytes [namesakeLogin.bytes] := ⟨by decide, by decide⟩
  exact data_server_authenticates (answer namesakes) namesakes (answer_serves namesakes)
    [namesakeLogin] [namesakeLogin.bytes] (.cons hwhole .nil)

end TinyGameServer.UserTable
