import LiteDbModel.Transaction

/-!
# The three retry classifiers

`DBModel.transaction`, the SCP runtime and the Rust runtime each decide from a driver's error
whether to run the transaction again. The first two see the error object, the third only a
message that holds the statement and the driver's text.
-/

namespace LiteDb.Classifiers
set_option autoImplicit false

/-! ## Classifiers -/

def quotes (texts : List String) (message : String) : Bool := texts.any (includesText message)

def connectionTexts : List String :=
  ["Connection terminated unexpectedly", "Connection terminated",
    "Client has encountered a connection error", "read ECONNRESET", "connect ECONNREFUSED",
    "Connection lost", "This socket has been ended by the other party"]

def connectionCodes : List ErrorCode :=
  [.text "ECONNRESET", .text "ECONNREFUSED", .text "EPIPE", .text "EAI_AGAIN",
    .text "PROTOCOL_CONNECTION_LOST"]

def v1Texts : List String :=
  ["The transaction might succeed if retried", "try restarting transaction",
    "could not serialize access due to concurrent update", "Deadlock found",
    "Lock wait timeout exceeded"]

def scpTexts : List String :=
  ["The transaction might succeed if retried", "try restarting transaction",
    "could not serialize access due to concurrent update", "could not serialize access",
    "Deadlock found", "deadlock detected", "Lock wait timeout exceeded"]

/-- `DBModel.isRetryableError` -/
def isRetryableError (error : JsError) : Bool :=
  isConnectionError error || quotes v1Texts error.message

/-- `SqlFailure` of the Rust runtime. -/
structure SqlFailure where
  kind : String
  policy : String
  sqliteCode : Option String
  message : String

namespace Rust

def connectionTexts : List String :=
  ["Connection terminated", "Client has encountered a connection error", "ECONNRESET",
    "ECONNREFUSED", "Connection lost", "This socket has been ended by the other party", "EPIPE",
    "PROTOCOL_CONNECTION_LOST", "connection closed", "connection was closed",
    "pool has been closed"]

def retryableTexts : List String := ["40001", "40P01", "1213", "1205"]

/-- `is_connection_error` -/
def isConnectionError (error : SqlFailure) : Bool := quotes connectionTexts error.message

/-- `is_retryable_tx_error` -/
def isRetryableTxError (error : SqlFailure) : Bool :=
  isConnectionError error || quotes retryableTexts error.message || quotes scpTexts error.message

/-- `driver_failure` -/
def driverFailure (message : String) : SqlFailure := ⟨"driver_error", "fail", none, message⟩

/-- `pg_err` of a server's error -/
def pgErr (context display sqlState : String) : SqlFailure :=
  driverFailure (context ++ ": " ++ display ++ (" (SQLSTATE " ++ sqlState ++ ")"))

/-- `map_sqlite_error` of a failure with the code's name -/
def mapSqliteError (code : Option String) (display : String) : SqlFailure :=
  match code with
  | none => ⟨"driver_error", "fail", none, "non-SQLite driver error: " ++ display⟩
  | some code =>
    let tagged := "[" ++ code ++ "] " ++ display
    if code = "SQLITE_CONSTRAINT_FOREIGNKEY" then
      ⟨"foreign_key_violation", "fail", some code, tagged⟩
    else if "SQLITE_CONSTRAINT".toList <+: code.toList then
      ⟨"constraint_violation", "fail", some code, tagged⟩
    else if code = "SQLITE_BUSY" ∨ code = "SQLITE_LOCKED" then
      ⟨"retryable", "retry", some code, tagged⟩
    else ⟨"driver_error", "fail", some code, tagged⟩

end Rust

/-! ## Errors of the drivers -/

inductive SqliteCode
  | constraintForeignKey
  | constraint
  | busy
  | locked
  | other
deriving DecidableEq

/-- `code_name_from_extended` -/
def SqliteCode.name : SqliteCode → Option String
  | .constraintForeignKey => some "SQLITE_CONSTRAINT_FOREIGNKEY"
  | .constraint => some "SQLITE_CONSTRAINT"
  | .busy => some "SQLITE_BUSY"
  | .locked => some "SQLITE_LOCKED"
  | .other => none

/-- A failure as both sides report it: `text` is the server's message, `context` and `display` what the
Rust driver says of the statement and of the error. -/
inductive DriverError
  | postgres (sqlState text context display : String)
  | mysql (errno : Nat) (name sqlState text context display : String)
  | sqlite (code : SqliteCode) (name text display : String)
  /-- The connection broke or was not made. -/
  | connection (code : ErrorCode) (errno : Option Int) (text message : String)

namespace DriverError

/-- The error object of the Node driver. -/
def js : DriverError → JsError
  | postgres sqlState text _ _ => ⟨true, text, .text sqlState, none, none⟩
  | mysql errno name sqlState text _ _ =>
    ⟨true, text, .text ("ER_" ++ name), some errno, some sqlState⟩
  | sqlite _ name text _ => ⟨true, text, .text ("SQLITE_" ++ name), none, none⟩
  | connection code errno text _ => ⟨true, text, code, errno, none⟩

def rust : DriverError → SqlFailure
  | postgres sqlState _ context display => Rust.pgErr context display sqlState
  | mysql _ _ _ _ context display => Rust.driverFailure (context ++ ": " ++ display)
  | sqlite code _ _ display => Rust.mapSqliteError code.name display
  | connection _ _ _ message => Rust.driverFailure message

end DriverError

inductive ErrorKind
  | deadlock
  | serialization
  | lockWait
  | connection
  | conflict
  | other
deriving DecidableEq

/-- What the server's code says: class 23 is integrity, class 08 and the shutdowns are the connection. -/
def sqlStateKind (s : String) : ErrorKind :=
  if s = "40P01" then .deadlock
  else if s = "40001" then .serialization
  else if s = "55P03" then .lockWait
  else if s = "57P01" ∨ s = "57P02" ∨ s = "57P03" ∨ "08".toList <+: s.toList then .connection
  else if "23".toList <+: s.toList then .conflict
  else .other

def errnoKind (n : Nat) : ErrorKind :=
  if n = 1213 then .deadlock
  else if n = 1205 then .lockWait
  else if n ∈ [1053, 1927, 4031] then .connection
  else if n ∈ [1022, 1062, 1169, 1216, 1217, 1451, 1452, 1557, 1586, 1761, 1762, 3819] then .conflict
  else .other

def DriverError.kind : DriverError → ErrorKind
  | .postgres sqlState _ _ _ => sqlStateKind sqlState
  | .mysql errno _ _ _ _ _ => errnoKind errno
  | .sqlite .constraintForeignKey _ _ _ | .sqlite .constraint _ _ _ => .conflict
  | .sqlite .busy _ _ _ | .sqlite .locked _ _ _ => .lockWait
  | .sqlite .other _ _ _ => .other
  | .connection _ _ _ _ => .connection

def ErrorKind.transient (k : ErrorKind) : Prop := k ≠ .conflict ∧ k ≠ .other

/-- The classifiers agree, and none of them takes a conflict for a transient failure. -/
structure Classified (e : DriverError) : Prop where
  scp : isRetryableTxError e.js isConnectionError = isRetryableError e.js
  rust : Rust.isRetryableTxError e.rust = isRetryableError e.js
  transient : e.kind.transient → isRetryableError e.js = true
  conflict : e.kind = .conflict → isRetryableError e.js = false

/-! ## Texts and codes -/

namespace DriverError

/-- The texts that the Rust runtime looks for. -/
def rustTexts : List String := Rust.connectionTexts ++ Rust.retryableTexts ++ scpTexts

/-- The error object has a code or a text that `DBModel` knows, and the Rust message one of its texts. -/
def Announced (e : DriverError) : Prop :=
  (e.js.code ∈ connectionCodes ∨ quotes (connectionTexts ++ v1Texts) e.js.message = true) ∧
    quotes rustTexts e.rust.message = true

/-- No classifier finds a text that it looks for. -/
def Silent (e : DriverError) : Prop :=
  e.js.code ∉ connectionCodes ∧ quotes (connectionTexts ++ scpTexts) e.js.message = false ∧
    quotes rustTexts e.rust.message = false

def Recognised (e : DriverError) : Prop :=
  match e.kind with
  | .conflict => e.Silent
  | .other => e.Silent ∨ e.Announced
  | _ => e.Announced

end DriverError

section Classify
variable {e : DriverError}

theorem quotes_append (xs ys : List String) (message : String) :
    quotes (xs ++ ys) message = (quotes xs message || quotes ys message) := List.any_append

theorem quotes_mono {xs ys : List String} (h : xs ⊆ ys) {message : String}
    (hq : quotes xs message = true) : quotes ys message = true := by
  obtain ⟨t, ht, hi⟩ := List.any_eq_true.mp hq
  exact List.any_eq_true.mpr ⟨t, h ht, hi⟩

theorem isConnectionError_eq (error : JsError) : isConnectionError error =
    (quotes connectionTexts error.message || connectionCodes.contains error.code) := rfl

theorem isRetryableError_iff {error : JsError} : isRetryableError error = true ↔
    error.code ∈ connectionCodes ∨ quotes (connectionTexts ++ v1Texts) error.message = true := by
  rw [isRetryableError, isConnectionError_eq, quotes_append]
  simp only [Bool.or_eq_true, List.contains_iff_mem]
  rw [or_right_comm, or_comm]

theorem rust_eq {error : SqlFailure} : Rust.isRetryableTxError error =
    quotes DriverError.rustTexts error.message := by
  simp only [Rust.isRetryableTxError, Rust.isConnectionError, DriverError.rustTexts, quotes_append]

/-- The server's own code, as the SCP runtime reads it. -/
def knownCode (error : JsError) : Bool :=
  let pgState := match error.code with
    | .text s => s
    | _ => error.sqlState.getD ""
  let myErrno := match error.errno, error.code with
    | some n, _ => some n
    | none, .number n => some n
    | none, _ => none
  (pgState = "40001" || pgState = "40P01") || (myErrno = some 1213 || myErrno = some 1205)

theorem ite_or_eq {a b c d : Prop} [Decidable a] [Decidable b] [Decidable c] [Decidable d]
    (q : Bool) : (if a ∨ b then true else if c ∨ d then true else q) =
      ((decide a || decide b) || (decide c || decide d) || q) := by
  by_cases hab : a ∨ b
  · simp [hab, ← Bool.decide_or]
  · by_cases hcd : c ∨ d
    · simp [hab, hcd, ← Bool.decide_or]
    · simp [hab, hcd, ← Bool.decide_or]

theorem scp_eq {error : JsError} (he : error.isError = true) :
    isRetryableTxError error isConnectionError =
      (isConnectionError error || knownCode error || quotes scpTexts error.message) := by
  unfold isRetryableTxError knownCode
  rw [he]
  cases hc : isConnectionError error with
  | true => simp
  | false =>
    simp only [Bool.not_true, Bool.false_eq_true, if_false, Bool.false_or]
    exact ite_or_eq _

/-- Whatever `DBModel` retries, the SCP runtime retries. -/
theorem scp_of_dbModel {error : JsError} (he : error.isError = true)
    (h : isRetryableError error = true) : isRetryableTxError error isConnectionError = true := by
  rw [scp_eq he]
  rw [isRetryableError, Bool.or_eq_true] at h
  rcases h with h | h
  · simp [h]
  · have hq : quotes scpTexts error.message = true := quotes_mono (by simp [v1Texts, scpTexts]) h
    simp [hq]

theorem js_isError (e : DriverError) : e.js.isError = true := by
  cases e <;> rfl

theorem prefixed_ne {pre name s : String} (h : ¬ pre.toList <+: s.toList) : pre ++ name ≠ s := by
  rintro rfl
  apply h
  simp

theorem sqlStateKind_settled {s : String} (h : sqlStateKind s = .conflict ∨ sqlStateKind s = .other) :
    s ≠ "40P01" ∧ s ≠ "40001" := by
  constructor
  · rintro rfl
    simp [sqlStateKind] at h
  · rintro rfl
    simp [sqlStateKind] at h

theorem errnoKind_settled {n : Nat} (h : errnoKind n = .conflict ∨ errnoKind n = .other) :
    n ≠ 1213 ∧ n ≠ 1205 := by
  constructor
  · rintro rfl
    simp [errnoKind] at h
  · rintro rfl
    simp [errnoKind] at h

/-- The code of a conflict is none that is retried; nor is that of another failure. -/
theorem knownCode_settled (h : e.kind = .conflict ∨ e.kind = .other) : knownCode e.js = false := by
  cases e with
  | postgres sqlState text context display =>
    obtain ⟨hd, hs⟩ := sqlStateKind_settled h
    simp [knownCode, DriverError.js, hd, hs]
  | mysql errno name sqlState text context display =>
    obtain ⟨hd, hw⟩ := errnoKind_settled h
    have h1 : "ER_" ++ name ≠ "40001" := prefixed_ne (by decide)
    have h2 : "ER_" ++ name ≠ "40P01" := prefixed_ne (by decide)
    have h3 : (errno : Int) ≠ 1213 := by omega
    have h4 : (errno : Int) ≠ 1205 := by omega
    simp [knownCode, DriverError.js, h1, h2, h3, h4]
  | sqlite code name text display =>
    have h1 : "SQLITE_" ++ name ≠ "40001" := prefixed_ne (by decide)
    have h2 : "SQLITE_" ++ name ≠ "40P01" := prefixed_ne (by decide)
    simp [knownCode, DriverError.js, h1, h2]
  | connection code errno text message =>
    rcases h with h | h
    · cases h
    · cases h

/-- No classifier retries an error exactly when none of the texts is found. -/
theorem silent_iff (h : e.kind = .conflict ∨ e.kind = .other) : e.Silent ↔
    isRetryableError e.js = false ∧ isRetryableTxError e.js isConnectionError = false ∧
      Rust.isRetryableTxError e.rust = false := by
  have hscp := scp_eq (js_isError e)
  rw [knownCode_settled h, Bool.or_false, isConnectionError_eq] at hscp
  rw [hscp, rust_eq, DriverError.Silent, quotes_append]
  simp only [Bool.or_eq_false_iff, List.contains_eq_mem, decide_eq_false_iff_not]
  constructor
  · rintro ⟨hcode, ⟨hconn, htexts⟩, hrust⟩
    refine ⟨?_, ⟨⟨hconn, hcode⟩, htexts⟩, hrust⟩
    rw [← Bool.not_eq_true]
    intro hv
    have hs := scp_of_dbModel (js_isError e) hv
    rw [hscp] at hs
    simp [hcode, hconn, htexts] at hs
  · rintro ⟨-, ⟨⟨hconn, hcode⟩, htexts⟩, hrust⟩
    exact ⟨hcode, ⟨hconn, htexts⟩, hrust⟩

theorem announced_iff : e.Announced ↔
    isRetryableError e.js = true ∧ isRetryableTxError e.js isConnectionError = true ∧
      Rust.isRetryableTxError e.rust = true := by
  rw [DriverError.Announced, ← isRetryableError_iff, rust_eq]
  constructor
  · rintro ⟨hv, hrust⟩
    exact ⟨hv, scp_of_dbModel (js_isError e) hv, hrust⟩
  · rintro ⟨hv, -, hrust⟩
    exact ⟨hv, hrust⟩

theorem classified_of_announced (h : e.Announced) (hk : e.kind ≠ .conflict) : Classified e := by
  obtain ⟨hv, hs, hr⟩ := announced_iff.mp h
  exact ⟨hs.trans hv.symm, hr.trans hv.symm, fun _ => hv, fun hc => absurd hc hk⟩

theorem classified_of_silent (h : e.Silent) (hk : e.kind = .conflict ∨ e.kind = .other) :
    Classified e := by
  obtain ⟨hv, hs, hr⟩ := (silent_iff hk).mp h
  refine ⟨hs.trans hv.symm, hr.trans hv.symm, ?_, fun _ => hv⟩
  intro ht
  rcases hk with hk | hk
  · exact absurd hk ht.1
  · exact absurd hk ht.2

theorem Classified.announced (h : Classified e) (hv : isRetryableError e.js = true) : e.Announced :=
  announced_iff.mpr ⟨hv, h.scp.trans hv, h.rust.trans hv⟩

theorem Classified.silent (h : Classified e) (hk : e.kind = .conflict ∨ e.kind = .other)
    (hv : isRetryableError e.js = false) : e.Silent :=
  (silent_iff hk).mpr ⟨hv, h.scp.trans hv, h.rust.trans hv⟩

theorem transient_iff (hk : e.kind.transient) : Classified e ↔ e.Announced :=
  ⟨fun h => h.announced (h.transient hk), fun h => classified_of_announced h hk.1⟩

/-- A PostgreSQL deadlock or serialization failure always reaches the Rust classifier by its code. -/
theorem rust_sqlState {sqlState text context display : String}
    (h : sqlState = "40001" ∨ sqlState = "40P01") :
    Rust.isRetryableTxError (DriverError.postgres sqlState text context display).rust = true := by
  have hin : includesText (Rust.pgErr context display sqlState).message sqlState = true := by
    rw [includesText, decide_eq_true_eq]
    refine ⟨(context ++ ": " ++ display ++ " (SQLSTATE ").toList, [')'], ?_⟩
    simp [Rust.pgErr, Rust.driverFailure]
  rw [rust_eq]
  apply List.any_eq_true.mpr
  refine ⟨sqlState, ?_, hin⟩
  rcases h with rfl | rfl
  · simp [DriverError.rustTexts, Rust.retryableTexts]
  · simp [DriverError.rustTexts, Rust.retryableTexts]

/-- A text of the list is found wherever the server's message quotes it. -/
theorem rust_of_display {errno : Nat} {name sqlState text context display t : String}
    (ht : t ∈ DriverError.rustTexts) (hd : includesText display t = true) :
    Rust.isRetryableTxError (DriverError.mysql errno name sqlState text context display).rust =
      true := by
  have hin : includesText (context ++ ": " ++ display) t = true := by
    rw [includesText, decide_eq_true_eq] at hd ⊢
    obtain ⟨pre, post, h⟩ := hd
    refine ⟨(context ++ ": ").toList ++ pre, post, ?_⟩
    simp [← h]
  rw [rust_eq]
  exact List.any_eq_true.mpr ⟨t, ht, hin⟩

end Classify

end LiteDb.Classifiers
