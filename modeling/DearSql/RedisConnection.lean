import DearSql.Effects
import DearSql.RedisReply
import DearSql.Types

/-! `RedisConnection` and its per-database handles over one hiredis context. The server
keeps one selected database for the connection, and between `MULTI` and `EXEC` a queue;
commands may be pipelined, so a reply is given when its command is sent and read later,
in order. -/
namespace DearSql.Redis
open Effects

/-- The first words of the commands the client sends besides `SELECT` and what its user
types. -/
def ownCommands : List Text :=
  ["SCAN".toList, "TYPE".toList, "TTL".toList, "MEMORY".toList, "GET".toList, "LRANGE".toList,
    "SSCAN".toList, "ZRANGE".toList, "HSCAN".toList, "SMEMBERS".toList, "HGETALL".toList,
    "AUTH".toList, "PING".toList, "CONFIG".toList]

def selectCommand (i : ℤ) : List Text := ["SELECT".toList, itoa i]

/-- What a command does to the connection it comes by, by its first words. -/
inductive Command
  | plain
  | select (n : ℤ)
  | multi | exec | discard
  | reset
  | stream -- SUBSCRIBE, MONITOR, …: from now on the server sends unasked
  deriving DecidableEq, Repr

/-- How the server reads commands. -/
structure Server where
  reads : List Text → Command
  reads_select (i : ℤ) : reads (selectCommand i) = .select i
  reads_own (w : Text) (args : List Text) : w ∈ ownCommands → reads (w :: args) = .plain

/-- The server's side of a connection: the selected database, the commands queued since
`MULTI`, and whether it sends more than the replies. -/
structure Session where
  selected : ℤ := 0
  queue : Option (List (List Text)) := none
  pushes : Bool := false
  deriving DecidableEq, Repr

namespace Session

def obey (s : Session) : Command → Session
  | .select n => { s with selected := n }
  | .multi => { s with queue := some [] }
  | .reset => {}
  | .stream => { s with pushes := true }
  | .plain | .exec | .discard => s

/-- `EXEC`: the queued commands, each with its own reply. -/
def exec (srv : Server) (s : Session) (q : List (List Text)) (replies : List Reply) : Session :=
  (q.zip replies).foldl
    (fun s (argv, r) => if accepted (some r) then s.obey (srv.reads argv) else s) s

/-- A command and its reply. Behind `MULTI` an accepted one is only queued (`+QUEUED`). -/
def run (srv : Server) (s : Session) (argv : List Text) (reply : Option Reply) : Session :=
  match s.queue, srv.reads argv with
  | some q, .exec =>
    exec srv { s with queue := none } q ((reply.map Reply.elements).getD [])
  | some q, c =>
    if !accepted reply then s
    else match c with
      | .discard => { s with queue := none }
      | .reset => {}
      | _ => { s with queue := some (q ++ [argv]) }
  | none, c => if accepted reply then s.obey c else s

end Session

structure RedisState where
  ctx : Bool := false
  selectedDb : ℤ := 0
  numDatabases : ℤ := 16
  deriving DecidableEq, Repr

structure ConnectionInfo where
  name : Text := []
  username : Text := []
  password : Text := []
  database : Text := []

structure RedisConnection where
  info : ConnectionInfo := {}
  state : RedisState := {}
  selectedDb_ : ℤ := 0

/-- A command as it reached the server: the database selected then, and whether it is the
`SELECT` of a handle's check. -/
structure Event where
  db : ℤ
  argv : List Text
  check : Bool := false
  deriving DecidableEq, Repr

/-- The server's side, the client, the replies still to be given and those given but not
read, and the commands sent. -/
structure World extends Session where
  conn : RedisConnection := {}
  replies : List (Option Reply) := []
  unread : List (Option Reply) := []
  trace : List Event := []

abbrev M := StateM World

section Client
variable (srv : Server)

/-- `redisAppendCommand`: the server takes the command; its reply waits to be read. -/
def append (argv : List Text) (check : Bool) : M Unit :=
  modify fun w =>
    let reply := w.replies.head?.join
    { w with
      toSession := w.toSession.run srv argv reply
      replies := w.replies.tail
      unread := w.unread ++ [reply]
      trace := w.trace ++ [⟨w.selected, argv, check⟩] }

def getReply : M (Option Reply) := do
  let w ← get
  modify fun w => { w with unread := w.unread.tail }
  return w.unread.head?.join

def command (argv : List Text) (check : Bool) : M (Option Reply) := do
  append srv argv check
  getReply

def modifyState (f : RedisState → RedisState) : M Unit :=
  modify fun w => { w with conn := { w.conn with state := f w.conn.state } }

def getState : M RedisState := return (← get).conn.state

def cleanup : M Unit := modifyState fun st => { st with ctx := false }

def ensureSelectedLocked (index : ℤ) : M Bool := do
  let st ← getState
  if !st.ctx then return false
  else if st.selectedDb = index then return true
  else
    let reply ← command srv (selectCommand index) true
    if !accepted reply then return false
    else
      modifyState fun st => { st with selectedDb := index }
      return true

def scanCommand (cursor : ℕ) (pattern : Text) : List Text :=
  ["SCAN".toList, decimal cursor, "MATCH".toList, cstr pattern, "COUNT".toList, "200".toList]

/-- The inner loop of a scan: the keys of one page, up to the limit, and whether the
limit is reached. -/
def takeKeys (limit : ℤ) : List Text → List Reply → List Text × Bool
  | keys, [] => (keys, false)
  | keys, .string k :: es =>
    if limit ≤ (keys ++ [k]).length then (keys ++ [k], true) else takeKeys limit (keys ++ [k]) es
  | keys, _ :: es => takeKeys limit keys es

/-- The `do … while (cursor != 0)` loop over the pages the server has left to give. -/
def scanPages (pattern : Text) (limit : ℤ) : ℕ → ℕ → List Text → M (List Text)
  | 0, cursor, keys => do
    let _ ← command srv (scanCommand cursor pattern) false
    return keys
  | pages + 1, cursor, keys => do
    let reply ← command srv (scanCommand cursor pattern) false
    match reply with
    | some (.array [c, page]) =>
      let r := takeKeys limit keys page.elements
      let cursor := if r.2 then 0 else strtoull c.text
      if cursor = 0 then return r.1 else scanPages pattern limit pages cursor r.1
    | _ => return keys

def scanKeysLocked (pattern : Text) (limit : ℤ) : M (List Text) := do
  let w ← get
  if !w.conn.state.ctx then return []
  else scanPages srv pattern limit w.replies.length 0 []

structure RedisKey where
  name : Text := []
  type : Text := []
  value : Text := []
  ttl : ℤ := -1
  size : ℤ := -1
  deriving DecidableEq, Repr

def detailCommands (n : Text) : M Unit := do
  append srv ["TYPE".toList, cstr n] false
  append srv ["TTL".toList, cstr n] false
  append srv ["MEMORY".toList, "USAGE".toList, cstr n] false

def readDetails (n : Text) : M RedisKey := do
  let type ← getReply
  let ttl ← getReply
  let size ← getReply
  return {
    name := n
    type := match type with
      | some (.status s) => cstr s
      | _ => "unknown".toList
    ttl := match ttl with
      | some (.integer i) => i
      | _ => -1
    size := match size with
      | some (.integer i) => i
      | _ => -1 }

def previewCommand (key : RedisKey) : List Text :=
  if key.type = "string".toList then ["GET".toList, cstr key.name]
  else if key.type = "list".toList then
    ["LRANGE".toList, cstr key.name, "0".toList, "4".toList]
  else if key.type = "set".toList then
    ["SSCAN".toList, cstr key.name, "0".toList, "COUNT".toList, "5".toList]
  else if key.type = "zset".toList then
    ["ZRANGE".toList, cstr key.name, "0".toList, "4".toList, "WITHSCORES".toList]
  else if key.type = "hash".toList then
    ["HSCAN".toList, cstr key.name, "0".toList, "COUNT".toList, "5".toList]
  else ["TYPE".toList, cstr key.name]

def readPreview (key : RedisKey) : M RedisKey := do
  let reply ← getReply
  return { key with value := formatRedisPreview reply key.type }

/-- The two pipelines that `fetchKeyDetails` and `getKeys` share. -/
def keyDetails (keyNames : List Text) : M (List RedisKey) := do
  keyNames.forM (detailCommands srv)
  let keys ← keyNames.mapM readDetails
  keys.forM fun key => append srv (previewCommand key) false
  keys.mapM readPreview

def fetchKeyDetails (index : ℤ) (keyNames : List Text) : M (List RedisKey) := do
  if !(← ensureSelectedLocked srv index) then return keyNames.map fun _ => {}
  else keyDetails srv keyNames

/-- `RedisDatabase::execute`; `errstr` is the context's error text. -/
def execute (index : ℤ) (cmd errstr : Text) : M QueryResult := do
  let parts := parseRedisCommand cmd
  if parts = [] then return { statements := [failure "Empty command".toList] }
  else if !(← getState).ctx then
    return { statements := [failure "Not connected to Redis server".toList] }
  else if !(← ensureSelectedLocked srv index) then
    return { statements := [failure ("Failed to switch to Redis database db".toList ++ itoa index)] }
  else
    let reply ← command srv parts false
    return { statements := [match reply with
      | none => failure (if errstr = [] then "Failed to execute command".toList else cstr errstr)
      | some (.error m) => failure m
      | some r => { columnNames := ["result".toList], tableData := [[r.format]] }] }

def keyPrefix (k : Text) : Text := k.takeWhile (· ≠ ':')

def dbName (connName : Text) (index : ℤ) : Text := connName ++ ".db".toList ++ itoa index ++ ['.']

def tables (index : ℤ) : M (List Table) := do
  let connName := (← get).conn.info.name
  if !(← ensureSelectedLocked srv index) then return []
  else
    let keyNames ← scanKeysLocked srv ['*'] 10000
    let prefixes := (keyNames.map keyPrefix).dedup.mergeSort fun a b => decide (a ≤ b)
    let table (name : Text) : Table := { name := name, fullName := dbName connName index ++ name }
    return table ['*'] :: prefixes.map fun p => table (p ++ ":*".toList)

/-- `RedisDatabase::getTableData`, with the columns Type, Value, TTL and Size still in
the key's record. -/
def getTableData (index : ℤ) (tableName : Text) (limit offset : ℕ) : M (List RedisKey) := do
  let pattern := if tableName = [] then ['*'] else tableName
  if !(← ensureSelectedLocked srv index) then return []
  else
    let keyNames ← scanKeysLocked srv pattern (limit + offset : ℕ)
    if keyNames.length ≤ offset then return []
    else
      let keys ← fetchKeyDetails srv index (keyNames.mergeSort fun a b => decide (a ≤ b))
      return (keys.drop offset).take limit

def getRowCount (index : ℤ) (tableName : Text) : M ℕ := do
  let pattern := if tableName = [] then ['*'] else tableName
  if !(← ensureSelectedLocked srv index) then return 0
  else return (← scanKeysLocked srv pattern 10000).length

def replyError (missing : Text) : Option Reply → Option Text
  | none => some missing
  | some (.error m) => some m
  | _ => none

def authenticate : M (Option Text) := do
  let info := (← get).conn.info
  if info.password = [] then return none
  else
    let reply ← command srv (["AUTH".toList] ++
      (if info.username = [] then [] else [cstr info.username]) ++ [cstr info.password]) false
    return replyError "Authentication failed".toList reply

/-- The number of databases `CONFIG GET databases` reports, if it is answered. -/
def configuredDatabases : Option Reply → ℤ
  | some (.array [_, .string s]) => if 0 < atoi (cstr s) then atoi (cstr s) else 16
  | _ => 16

def setSelected (i : ℤ) : M Unit :=
  modify fun w =>
    { w with conn := { w.conn with
        state := { w.conn.state with selectedDb := i }, selectedDb_ := i } }

/-- The end of `open`: the database the connection asks for. -/
def selectRequested : M Status := do
  let w ← get
  match stoi w.conn.info.database with
  | some idx =>
    if 0 ≤ idx ∧ idx < w.conn.state.numDatabases then
      let reply ← command srv (selectCommand idx) false
      if accepted reply then setSelected idx
      return {}
    else return {}
  | none => return {}

/-- `RedisConnection::open`; `connectError` is what connecting or the TLS handshake fails
with. A new connection is on database 0 and has nothing to read. -/
def openConnection (connectError : Option Text) : M Status := do
  if (← getState).ctx then return {}
  else match connectError with
    | some err =>
      cleanup
      return { ok := false, error := err }
    | none =>
      modify fun w => { w with toSession := {}, unread := [] }
      modifyState fun st => { st with ctx := true }
      match ← authenticate srv with
      | some err =>
        cleanup
        return { ok := false, error := err }
      | none =>
        let pong ← command srv ["PING".toList] false
        match replyError "Connection test failed".toList pong with
        | some err =>
          cleanup
          return { ok := false, error := err }
        | none =>
          let reply ← command srv ["CONFIG".toList, "GET".toList, "databases".toList] false
          modifyState fun st => { st with numDatabases := configuredDatabases reply }
          setSelected 0
          selectRequested srv

def closeConnection : M Unit := do
  cleanup
  modifyState fun st => { st with selectedDb := 0 }

def selectDatabase (dbIndex : ℤ) : M Bool := do
  let st ← getState
  if !st.ctx then return false
  else if dbIndex < 0 ∨ st.numDatabases ≤ dbIndex then return false
  else
    let reply ← command srv (selectCommand dbIndex) false
    if !accepted reply then return false
    else
      setSelected dbIndex
      return true

def getKeys (pattern : Text) (limit : ℤ) : M (List RedisKey) := do
  if !(← getState).ctx then return []
  else
    let keyNames ← scanKeysLocked srv pattern limit
    keyDetails srv (keyNames.mergeSort fun a b => decide (a ≤ b))

def getKeyType (key : Text) : M Text := do
  if !(← getState).ctx then return "unknown".toList
  else
    let reply ← command srv ["TYPE".toList, cstr key] false
    return match reply with
      | some (.status s) => cstr s
      | _ => "unknown".toList

def getKeyTTL (key : Text) : M ℤ := do
  if !(← getState).ctx then return -1
  else
    let reply ← command srv ["TTL".toList, cstr key] false
    return match reply with
      | some (.integer i) => i
      | _ => -1

def valueCommand (key type : Text) : Option (List Text) :=
  if type = "string".toList then some ["GET".toList, cstr key]
  else if type = "list".toList then some ["LRANGE".toList, cstr key, "0".toList, "4".toList]
  else if type = "set".toList then some ["SMEMBERS".toList, cstr key]
  else if type = "hash".toList then some ["HGETALL".toList, cstr key]
  else if type = "zset".toList then
    some ["ZRANGE".toList, cstr key, "0".toList, "4".toList, "WITHSCORES".toList]
  else none

def valueReply (key type : Text) : M (Option Reply) :=
  match valueCommand key type with
  | some argv => command srv argv false
  | none => return none

/-- The half of `getKeyValue` that holds the lock. -/
def readValue (key type : Text) : M Text := do
  if !(← getState).ctx then return "[Unable to retrieve value]".toList
  else
    let reply ← valueReply srv key type
    let value := if reply.isSome then formatRedisPreview reply type else []
    return if value = [] then "[Unable to retrieve value]".toList else value

def getKeyValue (key knownType : Text) : M Text :=
  if knownType = [] then getKeyType srv key >>= readValue srv key else readValue srv key knownType

end Client
end DearSql.Redis
