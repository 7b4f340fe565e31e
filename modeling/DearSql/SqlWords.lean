import DearSql.Quoting

/-! The word tables of the completion engine. -/
namespace DearSql

def isSqlDialect (type : DatabaseType) : Bool := type ≠ .REDIS && type ≠ .MONGODB

def words (ws : List String) : List Text := ws.map String.toList

def cassandraKeywords : List Text := words
  ["SELECT", "FROM", "WHERE", "AND", "IN", "INSERT", "INTO", "VALUES", "UPDATE", "SET", "DELETE",
    "CREATE", "DROP", "ALTER", "TRUNCATE", "USE", "KEYSPACE", "KEYSPACES", "TABLE", "TABLES",
    "INDEX", "TYPE", "MATERIALIZED", "VIEW", "PRIMARY", "KEY", "CLUSTERING", "ORDER", "BY", "ASC",
    "DESC", "LIMIT", "PER", "PARTITION", "ALLOW", "FILTERING", "IF", "EXISTS", "NOT", "USING",
    "TTL", "TIMESTAMP", "BATCH", "APPLY", "BEGIN", "UNLOGGED", "COUNTER", "WITH", "REPLICATION",
    "CONTAINS", "DISTINCT", "JSON", "AS", "NULL", "TRUE", "FALSE", "ADD", "RENAME", "TO", "GRANT",
    "REVOKE", "ROLE", "DESCRIBE", "TEXT", "INT", "BIGINT", "SMALLINT", "TINYINT", "UUID",
    "TIMEUUID", "BOOLEAN", "FLOAT", "DOUBLE", "DECIMAL", "VARINT", "LIST", "MAP", "FROZEN", "TUPLE",
    "BLOB", "DATE", "TIME", "INET", "ASCII", "VARCHAR", "DURATION", "STATIC"]

def commonKeywords : List Text := words
  ["SELECT", "FROM", "WHERE", "AND", "OR", "NOT", "IN", "IS", "NULL", "AS", "ON", "JOIN", "LEFT",
    "RIGHT", "INNER", "OUTER", "CROSS", "FULL", "NATURAL", "GROUP", "BY", "ORDER", "ASC", "DESC",
    "HAVING", "UNION", "ALL", "DISTINCT", "BETWEEN", "LIKE", "EXISTS", "CASE", "WHEN", "THEN",
    "ELSE", "END", "BEGIN", "COMMIT", "ROLLBACK", "WITH", "RECURSIVE", "CASCADE", "RESTRICT",
    "REFERENCES", "PRIMARY", "KEY", "FOREIGN", "UNIQUE", "CHECK", "DEFAULT", "CONSTRAINT", "IF",
    "TEMPORARY", "INTO", "VALUES", "SET", "INSERT", "UPDATE", "DELETE", "CREATE", "DROP", "ALTER",
    "TABLE", "INDEX", "VIEW", "TRIGGER", "ADD", "COLUMN", "RENAME", "TO", "OVER", "PARTITION",
    "EXCEPT", "INTERSECT", "TRUE", "FALSE", "USING", "TRANSACTION", "GRANT", "REVOKE", "ANY",
    "SOME", "DATE", "TIME", "TIMESTAMP", "INTEGER", "INT", "BIGINT", "SMALLINT", "DECIMAL",
    "NUMERIC", "REAL", "FLOAT", "CHAR", "VARCHAR", "TEXT", "REPLACE"]

def postgresKeywords : List Text := words
  ["LIMIT", "OFFSET", "RETURNING", "ILIKE", "SIMILAR", "LATERAL", "MATERIALIZED", "CONCURRENTLY",
    "VACUUM", "ANALYZE", "COPY", "ONLY", "SCHEMA", "DATABASE", "SEQUENCE", "FUNCTION", "PROCEDURE",
    "RETURNS", "LANGUAGE", "DECLARE", "CONFLICT", "DO", "NOTHING", "FILTER", "WINDOW", "FETCH",
    "FIRST", "NEXT", "ROWS", "ROW", "GENERATED", "ALWAYS", "IDENTITY", "STORED", "SERIAL",
    "BIGSERIAL", "SMALLSERIAL", "BOOLEAN", "JSON", "JSONB", "UUID", "BYTEA", "ARRAY", "DOUBLE",
    "PRECISION", "TIMESTAMPTZ", "EXTENSION", "TRUNCATE", "CALL", "NULLS", "INTERVAL", "EXPLAIN",
    "TABLESAMPLE", "UNLOGGED", "EXECUTE", "RETURN", "OWNER", "TYPE", "ENUM", "DOMAIN"]

def redshiftKeywords : List Text := words
  ["DISTKEY", "SORTKEY", "DISTSTYLE", "ENCODE", "UNLOAD"]

def mysqlKeywords : List Text := words
  ["LIMIT", "OFFSET", "AUTO_INCREMENT", "ENGINE", "CHARSET", "COLLATE", "SHOW", "DESCRIBE",
    "DATABASES", "TABLES", "COLUMNS", "USE", "IGNORE", "DUPLICATE", "STRAIGHT_JOIN", "REGEXP",
    "RLIKE", "UNSIGNED", "SIGNED", "ZEROFILL", "TINYINT", "MEDIUMINT", "LONGTEXT", "MEDIUMTEXT",
    "TINYTEXT", "BLOB", "LONGBLOB", "DATETIME", "ENUM", "JSON", "BOOLEAN", "DOUBLE", "PROCEDURE",
    "FUNCTION", "DATABASE", "SCHEMA", "TRUNCATE", "CALL", "EXPLAIN", "DELIMITER", "LOCK", "UNLOCK",
    "INTERVAL", "WINDOW", "ROWS", "DIV", "XOR", "SEPARATOR", "MODIFY", "CHANGE", "AFTER", "FIRST",
    "PROCESSLIST", "VARIABLES", "STATUS", "GENERATED", "ALWAYS", "STORED", "VIRTUAL", "DECLARE"]

def mariadbKeywords : List Text := words
  ["RETURNING", "SEQUENCE"]

def sqliteKeywords : List Text := words
  ["LIMIT", "OFFSET", "AUTOINCREMENT", "PRAGMA", "GLOB", "REGEXP", "VACUUM", "ANALYZE", "ATTACH",
    "DETACH", "WITHOUT", "ROWID", "CONFLICT", "ABORT", "FAIL", "IGNORE", "RETURNING", "STRICT",
    "VIRTUAL", "EXPLAIN", "QUERY", "PLAN", "INDEXED", "BLOB", "BOOLEAN", "DATETIME", "FILTER",
    "WINDOW", "ROWS", "NULLS", "GENERATED", "ALWAYS", "STORED", "DO", "NOTHING", "DATABASE",
    "IMMEDIATE", "EXCLUSIVE", "DEFERRED", "REINDEX"]

def mssqlKeywords : List Text := words
  ["TOP", "OFFSET", "FETCH", "NEXT", "ROWS", "ONLY", "IDENTITY", "NOLOCK", "OUTPUT", "GO", "EXEC",
    "EXECUTE", "DECLARE", "MERGE", "MATCHED", "PIVOT", "UNPIVOT", "APPLY", "PROCEDURE", "PROC",
    "FUNCTION", "DATABASE", "SCHEMA", "TRUNCATE", "NVARCHAR", "NCHAR", "NTEXT", "BIT", "DATETIME",
    "DATETIME2", "DATETIMEOFFSET", "UNIQUEIDENTIFIER", "MONEY", "VARBINARY", "IMAGE", "PRINT",
    "RAISERROR", "TRY", "CATCH", "THROW", "WHILE", "RETURN", "USE", "CLUSTERED", "NONCLUSTERED",
    "INCLUDE", "PERCENT", "TIES", "ROWS", "RETURNS", "TRAN", "SEQUENCE"]

def oracleKeywords : List Text := words
  ["ROWNUM", "ROWID", "CONNECT", "PRIOR", "START", "MINUS", "DUAL", "MERGE", "MATCHED", "NOCYCLE",
    "FETCH", "FIRST", "NEXT", "ROWS", "ONLY", "OFFSET", "NUMBER", "VARCHAR2", "NVARCHAR2", "CLOB",
    "BLOB", "RAW", "SEQUENCE", "PROCEDURE", "FUNCTION", "PACKAGE", "BODY", "SYNONYM", "DECLARE",
    "EXCEPTION", "LOOP", "RETURNING", "TRUNCATE", "PURGE", "EXPLAIN", "PLAN", "NULLS", "LEVEL",
    "SIBLINGS", "SCHEMA", "IDENTITY", "GENERATED", "ALWAYS", "RETURN", "NOCOPY"]

def duckdbKeywords : List Text := words
  ["LIMIT", "OFFSET", "RETURNING", "ILIKE", "SIMILAR", "LATERAL", "QUALIFY", "PIVOT", "UNPIVOT",
    "DESCRIBE", "SUMMARIZE", "SHOW", "EXCLUDE", "COPY", "ATTACH", "DETACH", "ASOF", "POSITIONAL",
    "ANTI", "SEMI", "SAMPLE", "INSTALL", "LOAD", "PRAGMA", "EXPLAIN", "ANALYZE", "SEQUENCE",
    "SCHEMA", "MACRO", "STRUCT", "LIST", "MAP", "BOOLEAN", "DOUBLE", "HUGEINT", "UBIGINT", "BLOB",
    "UUID", "JSON", "TIMESTAMPTZ", "FILTER", "WINDOW", "NULLS", "CONFLICT", "DO", "NOTHING",
    "GENERATED", "ALWAYS", "VIRTUAL", "DATABASE", "INTERVAL", "FUNCTION", "TYPE", "ENUM", "USE"]

def cassandraFunctions : List Text := words
  ["COUNT", "MIN", "MAX", "SUM", "AVG", "CAST", "NOW", "UUID", "TOKEN", "TTL", "WRITETIME",
    "TOTIMESTAMP", "TODATE", "TOUNIXTIMESTAMP", "MINTIMEUUID", "MAXTIMEUUID", "CURRENTTIMESTAMP",
    "CURRENTDATE", "TOJSON", "FROMJSON"]

def commonFunctions : List Text := words
  ["COUNT", "SUM", "AVG", "MIN", "MAX", "COALESCE", "NULLIF", "CAST", "UPPER", "LOWER", "TRIM",
    "LTRIM", "RTRIM", "REPLACE", "ABS", "ROUND", "FLOOR", "ROW_NUMBER", "RANK", "DENSE_RANK",
    "NTILE", "LAG", "LEAD", "FIRST_VALUE", "LAST_VALUE", "CURRENT_TIMESTAMP", "CURRENT_DATE"]

def postgresFunctions : List Text := words
  ["STRING_AGG", "ARRAY_AGG", "BOOL_AND", "BOOL_OR", "JSON_AGG", "JSONB_AGG", "JSON_BUILD_OBJECT",
    "JSONB_BUILD_OBJECT", "JSON_BUILD_ARRAY", "JSON_OBJECT_AGG", "JSONB_SET", "JSONB_EXTRACT_PATH",
    "JSON_EXTRACT_PATH", "TO_JSON", "TO_JSONB", "ROW_TO_JSON", "LENGTH", "CHAR_LENGTH", "SUBSTRING",
    "SUBSTR", "POSITION", "STRPOS", "SPLIT_PART", "INITCAP", "LPAD", "RPAD", "LEFT", "RIGHT",
    "REVERSE", "REPEAT", "TRANSLATE", "FORMAT", "CONCAT", "CONCAT_WS", "REGEXP_REPLACE",
    "REGEXP_MATCHES", "REGEXP_SPLIT_TO_TABLE", "NOW", "CURRENT_TIME", "CLOCK_TIMESTAMP",
    "DATE_TRUNC", "DATE_PART", "EXTRACT", "AGE", "TO_CHAR", "TO_DATE", "TO_TIMESTAMP", "TO_NUMBER",
    "MAKE_DATE", "MAKE_INTERVAL", "GENERATE_SERIES", "UNNEST", "ARRAY_LENGTH", "ARRAY_TO_STRING",
    "STRING_TO_ARRAY", "CARDINALITY", "RANDOM", "PI", "CEIL", "CEILING", "MOD", "POWER", "SQRT",
    "SIGN", "EXP", "LN", "LOG", "GREATEST", "LEAST", "GEN_RANDOM_UUID", "NEXTVAL", "CURRVAL",
    "SETVAL", "PG_SIZE_PRETTY", "PG_TOTAL_RELATION_SIZE", "PERCENT_RANK", "CUME_DIST", "NTH_VALUE",
    "PERCENTILE_CONT", "MODE"]

def redshiftFunctions : List Text := words
  ["LISTAGG", "GETDATE", "DATEADD", "DATEDIFF", "NVL", "NVL2", "DECODE"]

def mysqlFunctions : List Text := words
  ["GROUP_CONCAT", "JSON_ARRAYAGG", "JSON_OBJECTAGG", "LENGTH", "CHAR_LENGTH", "SUBSTRING",
    "SUBSTR", "SUBSTRING_INDEX", "LOCATE", "INSTR", "POSITION", "CONCAT", "CONCAT_WS", "LEFT",
    "RIGHT", "REVERSE", "REPEAT", "LPAD", "RPAD", "FORMAT", "REGEXP_REPLACE", "REGEXP_LIKE", "NOW",
    "CURDATE", "CURTIME", "SYSDATE", "DATE", "DATE_ADD", "DATE_SUB", "DATEDIFF", "TIMESTAMPDIFF",
    "DATE_FORMAT", "STR_TO_DATE", "UNIX_TIMESTAMP", "FROM_UNIXTIME", "YEAR", "MONTH", "DAY", "HOUR",
    "MINUTE", "SECOND", "EXTRACT", "IFNULL", "IF", "ISNULL", "CONVERT", "JSON_EXTRACT",
    "JSON_UNQUOTE", "JSON_OBJECT", "JSON_ARRAY", "JSON_CONTAINS", "JSON_SET", "RAND", "UUID",
    "LAST_INSERT_ID", "CEIL", "CEILING", "MOD", "POWER", "POW", "SQRT", "SIGN", "EXP", "LN", "LOG",
    "GREATEST", "LEAST", "PERCENT_RANK", "CUME_DIST", "NTH_VALUE"]

def sqliteFunctions : List Text := words
  ["GROUP_CONCAT", "TOTAL", "LENGTH", "SUBSTR", "SUBSTRING", "INSTR", "CONCAT", "PRINTF",
    "FORMAT", "HEX", "QUOTE", "TYPEOF", "UNICODE", "CHAR", "ZEROBLOB", "RANDOM", "RANDOMBLOB",
    "IFNULL", "IIF", "DATE", "TIME", "DATETIME", "JULIANDAY", "UNIXEPOCH", "STRFTIME", "JSON",
    "JSON_EXTRACT", "JSON_OBJECT", "JSON_ARRAY", "JSON_GROUP_ARRAY", "JSON_GROUP_OBJECT",
    "JSON_EACH", "JSON_TREE", "LAST_INSERT_ROWID", "CHANGES", "TOTAL_CHANGES", "LIKELIHOOD",
    "PERCENT_RANK", "CUME_DIST", "NTH_VALUE", "CEIL", "CEILING", "MOD", "POWER", "SQRT", "SIGN",
    "EXP", "LN", "LOG"]

def mssqlFunctions : List Text := words
  ["LEN", "DATALENGTH", "SUBSTRING", "CHARINDEX", "PATINDEX", "CONCAT", "CONCAT_WS", "LEFT",
    "RIGHT", "REVERSE", "REPLICATE", "STUFF", "STRING_AGG", "STRING_SPLIT", "FORMAT", "CONVERT",
    "TRY_CAST", "TRY_CONVERT", "PARSE", "ISNULL", "IIF", "CHOOSE", "GETDATE", "GETUTCDATE",
    "SYSDATETIME", "SYSUTCDATETIME", "DATEADD", "DATEDIFF", "DATEPART", "DATENAME", "EOMONTH",
    "YEAR", "MONTH", "DAY", "NEWID", "SCOPE_IDENTITY", "OBJECT_ID", "OBJECT_NAME", "DB_NAME",
    "JSON_VALUE", "JSON_QUERY", "JSON_MODIFY", "OPENJSON", "ISJSON", "CEILING", "POWER", "SQRT",
    "SIGN", "EXP", "LOG", "RAND", "PERCENT_RANK", "CUME_DIST", "GREATEST", "LEAST"]

def oracleFunctions : List Text := words
  ["NVL", "NVL2", "DECODE", "LENGTH", "SUBSTR", "INSTR", "CONCAT", "LPAD", "RPAD", "INITCAP",
    "TRANSLATE", "REGEXP_LIKE", "REGEXP_REPLACE", "REGEXP_SUBSTR", "REGEXP_INSTR", "LISTAGG",
    "SYSDATE", "SYSTIMESTAMP", "TO_CHAR", "TO_DATE", "TO_NUMBER", "TO_TIMESTAMP", "ADD_MONTHS",
    "MONTHS_BETWEEN", "LAST_DAY", "NEXT_DAY", "TRUNC", "EXTRACT", "CEIL", "MOD", "POWER", "SQRT",
    "SIGN", "EXP", "LN", "LOG", "GREATEST", "LEAST", "SYS_GUID", "JSON_VALUE", "JSON_QUERY",
    "JSON_OBJECT", "JSON_ARRAYAGG", "PERCENT_RANK", "CUME_DIST", "NTH_VALUE"]

def duckdbFunctions : List Text := words
  ["STRING_AGG", "LIST", "ARRAY_AGG", "ANY_VALUE", "ARG_MAX", "ARG_MIN", "MEDIAN",
    "QUANTILE_CONT", "MODE", "APPROX_COUNT_DISTINCT", "LENGTH", "SUBSTRING", "SUBSTR", "STRPOS",
    "INSTR", "CONCAT", "CONCAT_WS", "LEFT", "RIGHT", "REVERSE", "REPEAT", "LPAD", "RPAD",
    "SPLIT_PART", "STRING_SPLIT", "REGEXP_MATCHES", "REGEXP_REPLACE", "REGEXP_EXTRACT", "NOW",
    "TODAY", "DATE_TRUNC", "DATE_PART", "DATEDIFF", "DATE_DIFF", "EXTRACT", "STRFTIME", "STRPTIME",
    "EPOCH", "AGE", "MAKE_DATE", "GENERATE_SERIES", "RANGE", "UNNEST", "LIST_VALUE", "STRUCT_PACK",
    "READ_CSV", "READ_CSV_AUTO", "READ_PARQUET", "READ_JSON", "READ_JSON_AUTO", "IFNULL", "CEIL",
    "CEILING", "MOD", "POWER", "SQRT", "SIGN", "EXP", "LN", "LOG", "GREATEST", "LEAST", "RANDOM",
    "UUID", "GEN_RANDOM_UUID"]

section Tables

/-- Bytes compare as the unsigned numbers they are. -/
def textLe : Text → Text → Bool
  | [], _ => true
  | _ :: _, [] => false
  | a :: as, b :: bs => if a = b then textLe as bs else a.toNat < b.toNat

def sortUnique (ws : List Text) : List Text := (ws.insertionSort (textLe · ·)).destutter (· ≠ ·)

theorem mem_sortUnique {w : Text} {ws : List Text} (h : w ∈ sortUnique ws) : w ∈ ws :=
  (List.mem_insertionSort _).mp ((List.destutter_sublist _ _).subset h)

def buildKeywords (type : DatabaseType) : List Text :=
  match type with
  | .REDIS | .MONGODB => []
  | .CASSANDRA => sortUnique cassandraKeywords
  | .POSTGRESQL | .COCKROACHDB => sortUnique (commonKeywords ++ postgresKeywords)
  | .REDSHIFT => sortUnique (commonKeywords ++ postgresKeywords ++ redshiftKeywords)
  | .MYSQL | .TIDB => sortUnique (commonKeywords ++ mysqlKeywords)
  | .MARIADB => sortUnique (commonKeywords ++ mysqlKeywords ++ mariadbKeywords)
  | .SQLITE => sortUnique (commonKeywords ++ sqliteKeywords)
  | .MSSQL => sortUnique (commonKeywords ++ mssqlKeywords)
  | .ORACLE => sortUnique (commonKeywords ++ oracleKeywords)
  | .DUCKDB => sortUnique (commonKeywords ++ duckdbKeywords)
  | .S3 => sortUnique commonKeywords

def buildFunctions (type : DatabaseType) : List Text :=
  match type with
  | .REDIS | .MONGODB => []
  | .CASSANDRA => sortUnique cassandraFunctions
  | .POSTGRESQL | .COCKROACHDB => sortUnique (commonFunctions ++ postgresFunctions)
  | .REDSHIFT => sortUnique (commonFunctions ++ postgresFunctions ++ redshiftFunctions)
  | .MYSQL | .MARIADB | .TIDB => sortUnique (commonFunctions ++ mysqlFunctions)
  | .SQLITE => sortUnique (commonFunctions ++ sqliteFunctions)
  | .MSSQL => sortUnique (commonFunctions ++ mssqlFunctions)
  | .ORACLE => sortUnique (commonFunctions ++ oracleFunctions)
  | .DUCKDB => sortUnique (commonFunctions ++ duckdbFunctions)
  | .S3 => sortUnique commonFunctions

/-- The tables are shared per type; a type past the last table gets the last one. -/
def tableType : DatabaseType → DatabaseType
  | .S3 => .COCKROACHDB
  | type => type

def sqlKeywords (type : DatabaseType) : List Text := buildKeywords (tableType type)

def sqlFunctions (type : DatabaseType) : List Text := buildFunctions (tableType type)

end Tables

/-- Words that end a relation reference: never an implicit alias. -/
def notAliasWords : List Text := words
  ["WHERE", "ON", "USING", "JOIN", "INNER", "LEFT", "RIGHT", "FULL", "OUTER", "CROSS", "NATURAL",
    "SET", "VALUES", "GROUP", "ORDER", "HAVING", "LIMIT", "OFFSET", "UNION", "INTERSECT", "EXCEPT",
    "MINUS", "WINDOW", "FETCH", "FOR", "RETURNING", "SELECT", "FROM", "AS", "WITH", "LATERAL",
    "APPLY", "STRAIGHT_JOIN", "QUALIFY", "PIVOT", "UNPIVOT", "SAMPLE", "TABLESAMPLE", "START",
    "CONNECT", "DEFAULT", "OUTPUT", "ASOF", "POSITIONAL", "ANTI", "SEMI", "PARTITION", "INTO",
    "WHEN", "THEN", "ELSE", "END", "AND", "OR", "NOT", "IS", "IN", "LIKE", "ILIKE", "BETWEEN", "IF",
    "ALLOW", "USE", "IGNORE", "FORCE", "NULL", "TRUE", "FALSE", "LOCK", "ONLY", "DO", "TOP"]

/-- Keywords that continue a statement after a FROM item. -/
def clauseKeywords : List Text := words
  ["WHERE", "JOIN", "INNER", "LEFT", "RIGHT", "FULL", "CROSS", "OUTER", "ON", "USING", "AS",
    "GROUP", "ORDER", "HAVING", "LIMIT", "UNION", "SET", "VALUES", "SELECT", "NATURAL", "OFFSET",
    "RETURNING", "WINDOW", "EXCEPT", "INTERSECT", "FETCH", "QUALIFY", "DEFAULT"]

def statementKeywords : List Text := words
  ["SELECT", "INSERT", "UPDATE", "DELETE", "WITH", "CREATE", "ALTER", "DROP", "TRUNCATE",
    "EXPLAIN", "BEGIN", "COMMIT", "ROLLBACK", "GRANT", "REVOKE", "SHOW", "DESCRIBE", "USE",
    "PRAGMA", "VACUUM", "ANALYZE", "CALL", "EXEC", "EXECUTE", "DECLARE", "MERGE", "SET", "COPY"]

/-- Words that can start a FROM item. -/
def relationKeywords : List Text :=
  words ["LATERAL", "ONLY", "SELECT", "IF", "NOT", "EXISTS", "UNNEST"]

end DearSql
