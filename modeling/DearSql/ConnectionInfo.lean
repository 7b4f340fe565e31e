import DearSql.SqlBuilder

/-! `ConnectionInfo` and the connection strings built from it. -/
namespace DearSql

inductive SslMode
  | Disable | Allow | Prefer | Require | VerifyCA | VerifyFull | VerifyIdentity
  deriving DecidableEq, Repr

def sslModeToString : SslMode → Text
  | .Disable => "disable".toList
  | .Allow => "allow".toList
  | .Prefer => "prefer".toList
  | .Require => "require".toList
  | .VerifyCA => "verify-ca".toList
  | .VerifyFull => "verify-full".toList
  | .VerifyIdentity => "verify-identity".toList

structure ConnectionInfo where
  type : DatabaseType := .SQLITE
  path : Text := []
  host : Text := []
  port : ℤ := 5432
  database : Text := []
  username : Text := []
  password : Text := []
  sslmode : SslMode := .Prefer
  sslCACertPath : Text := []

/-- The inside of a quoted value. -/
def escapedLibpq (value : Text) : Text :=
  value.flatMap fun ch => if ch = '\'' ∨ ch = '\\' then ['\\', ch] else [ch]

def escapeLibpqValue (value : Text) : Text := '\'' :: (escapedLibpq value ++ ['\''])

def libpqKeyword (key value : Text) : Text := ' ' :: (key ++ '=' :: escapeLibpqValue value)

/-- A pair whose value is written as it is. -/
def plainKeyword (key value : Text) : Text := ' ' :: (key ++ '=' :: value)

def hexDigit (n : ℕ) : Char := "0123456789ABCDEF".toList.getD n '0'

def uriEncodeByte (ch : Char) : Text :=
  if isalnum ch ∨ ch = '-' ∨ ch = '_' ∨ ch = '.' ∨ ch = '~' then [ch]
  else ['%', hexDigit (ch.toNat / 16), hexDigit (ch.toNat % 16)]

def uriEncode (value : Text) : Text := value.flatMap uriEncodeByte

theorem itoa_bytes (n : ℤ) : ∀ c ∈ itoa n, c = '-' ∨ isdigit c = true := by
  have hdigits : ∀ m : ℕ, ∀ c ∈ Nat.toDigits 10 m, isdigit c = true := fun m c hc =>
    Nat.isDigit_of_mem_toDigits (by decide) (by decide) hc
  intro c hc
  cases n with
  | ofNat m => exact .inr (hdigits m c hc)
  | negSucc m =>
    rcases List.mem_cons.mp hc with rfl | hc
    · exact .inl rfl
    · exact .inr (hdigits _ c hc)

def uriOption (key value : Text) : Text := key ++ '=' :: value

namespace ConnectionInfo
variable (info : ConnectionInfo) (dbName : Text)

/-- The database asked for, else that of the settings. -/
def target : Text := if dbName ≠ [] then dbName else info.database

def defaultDatabase : Text :=
  match info.type with
  | .REDSHIFT => "dev".toList
  | .COCKROACHDB => "defaultdb".toList
  | _ => "postgres".toList

def postgresString : Text :=
  "host".toList ++ '=' :: escapeLibpqValue info.host ++ plainKeyword "port".toList (itoa info.port) ++
    plainKeyword "connect_timeout".toList "10".toList ++
    libpqKeyword "dbname".toList
      (if info.target dbName ≠ [] then info.target dbName else info.defaultDatabase) ++
    (if info.username ≠ [] then libpqKeyword "user".toList info.username else []) ++
    (if info.password ≠ [] then libpqKeyword "password".toList info.password else []) ++
    plainKeyword "sslmode".toList (sslModeToString info.sslmode) ++
    (if (info.sslmode = .VerifyCA ∨ info.sslmode = .VerifyFull) ∧ info.sslCACertPath ≠ [] then
      libpqKeyword "sslrootcert".toList info.sslCACertPath else [])

def mysqlString : Text :=
  "host=".toList ++ info.host ++ " port=".toList ++ itoa info.port ++ " dbname=".toList ++
    info.target dbName ++
    (if info.username ≠ [] then " user=".toList ++ info.username else []) ++
    (if info.password ≠ [] then " password=".toList ++ info.password else [])

def hostPort : Text := info.host ++ ':' :: itoa info.port

/-- The part of the URI before the options. -/
def mongoBase : Text :=
  "mongodb://".toList ++
    (if info.username ≠ [] then
      uriEncode info.username ++
        (if info.password ≠ [] then ':' :: uriEncode info.password else []) ++ ['@']
      else []) ++
    info.hostPort ++
    (if info.target dbName ≠ [] then '/' :: uriEncode (info.target dbName) else [])

def mongoOptions : Text :=
  uriOption "tls".toList "true".toList ++
    (if info.sslCACertPath ≠ [] then
      '&' :: uriOption "tlsCAFile".toList (uriEncode info.sslCACertPath)
    else if info.sslmode = .Require then
      '&' :: uriOption "tlsAllowInvalidCertificates".toList "true".toList
    else [])

def mongoString : Text :=
  info.mongoBase dbName ++
    (if info.sslmode = .Require ∨ info.sslmode = .VerifyCA ∨ info.sslmode = .VerifyFull then
      (if '?' ∈ info.mongoBase dbName then '&' else '?') :: info.mongoOptions
    else [])

def buildConnectionString : Text :=
  match info.type with
  | .SQLITE | .DUCKDB => info.path
  | .COCKROACHDB | .REDSHIFT | .POSTGRESQL => info.postgresString dbName
  | .MYSQL | .TIDB | .MARIADB => info.mysqlString dbName
  | .REDIS => "redis://".toList ++ info.hostPort
  | .MONGODB => info.mongoString dbName
  | .ORACLE => "//".toList ++ info.hostPort ++ '/' :: info.database
  | .MSSQL | .CASSANDRA | .S3 => info.hostPort

end ConnectionInfo
end DearSql
