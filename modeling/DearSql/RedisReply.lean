import DearSql.QueryResult

/-! Redis replies as hiredis delivers them, the texts they are shown as, and the reading
of a command line. -/
namespace DearSql.Redis

/-- A `redisReply`; a missing one is a `nullptr`. -/
inductive Reply
  | string (str : Text)
  | array (element : List Reply)
  | integer (n : ℤ)
  | nil
  | status (str : Text)
  | error (str : Text)
  | other
  deriving Repr

/-- `reply && reply->type != REDIS_REPLY_ERROR`. -/
def accepted : Option Reply → Bool
  | none | some (.error _) => false
  | _ => true

namespace Reply

/-- `reply->str ? reply->str : ""`, as a C string. -/
def text : Reply → Text
  | .string s | .status s | .error s => cstr s
  | _ => []

def elements : Reply → List Reply
  | .array es => es
  | _ => []

def isArray : Reply → Bool
  | .array _ => true
  | _ => false

mutual
def format : Reply → Text
  | .string s | .status s => s
  | .array es => '[' :: formatAll es ++ [']']
  | .integer n => itoa n
  | .nil => NULL_SENTINEL
  | .error s => "ERROR: ".toList ++ s
  | .other => "UNKNOWN".toList

def formatAll : List Reply → Text
  | [] => []
  | [e] => format e
  | e :: es => format e ++ ", ".toList ++ formatAll es
end

end Reply

/-- The `for` loop of a preview: the entries before the limit, separated by commas, and
an ellipsis where there are more. -/
def previewEntries (limit : ℕ) (total : ℕ) (entries : List Text) : Text :=
  (", ".toList).intercalate (entries.take limit) ++ if limit < total then ", ...".toList else []

def quoted (r : Reply) : Text := '"' :: r.text ++ ['"']

def pairs : List Reply → List (Reply × Reply)
  | a :: b :: es => (a, b) :: pairs es
  | _ => []

/-- The elements of a cursor reply `[cursor, elements]`, or of the reply itself. -/
def cursorPayload (r : Reply) : Reply :=
  match r with
  | .array [_, .array es] => .array es
  | r => r

def formatRedisPreview (reply : Option Reply) (type : Text) : Text :=
  let nilText := "[nil]".toList
  match reply with
  | none => "[error]".toList
  | some reply =>
    if type = "string".toList then
      match reply with
      | .string s => s
      | _ => nilText
    else if type = "list".toList then
      if reply.isArray then
        '[' :: previewEntries 5 reply.elements.length (reply.elements.map quoted) ++ [']']
      else nilText
    else if type = "set".toList then
      let members := cursorPayload reply
      if members.isArray then
        '\x7b' :: previewEntries 5 members.elements.length (members.elements.map quoted) ++ ['\x7d']
      else nilText
    else if type = "hash".toList then
      let ps := cursorPayload reply
      if ps.isArray then
        '\x7b' :: (", ".toList).intercalate
            (((pairs ps.elements).take 5).map fun p => quoted p.1 ++ ": ".toList ++ quoted p.2) ++
          (if 10 < ps.elements.length then ", ...".toList else []) ++ ['\x7d']
      else nilText
    else if type = "zset".toList then
      if reply.isArray then
        '[' :: (", ".toList).intercalate
            (((pairs reply.elements).take 5).map fun p => quoted p.1 ++ ':' :: p.2.text) ++
          (if 10 < reply.elements.length then ", ...".toList else []) ++ [']']
      else nilText
    else []

/-- The loop of `parseRedisCommand`: the quote that is open, the word begun so far. -/
def parseWords : Option Char → Text → Text → List Text
  | _, current, [] => if current = [] then [] else [current]
  | none, current, c :: cs =>
    if c = '"' ∨ c = '\'' then parseWords (some c) current cs
    else if isspace c then
      if current = [] then parseWords none [] cs else current :: parseWords none [] cs
    else parseWords none (current ++ [c]) cs
  | some q, current, c :: cs =>
    if c = q then parseWords none current cs else parseWords (some q) (current ++ [c]) cs

def parseRedisCommand (command : Text) : List Text := parseWords none [] command

example : parseRedisCommand "SET k 'a b'".toList =
    ["SET".toList, "k".toList, "a b".toList] := by decide

end DearSql.Redis
