/-!
The reserved words of the language, and the search for one in any spelling of its letters.
-/
namespace Cql

inductive Keyword where
  | ADD | AGGREGATE | ALL | ALLOW | ALTER | AND | ANY | APPLY | AS | ASC | AUTHORIZE | BATCH
  | BEGIN | BY | CALLED | CLUSTERING | COLUMNFAMILY | COMPACT | CONSISTENCY | CONTAINS | CREATE
  | CUSTOM | DELETE | DESC | DESCRIBE | DISTINCT | DROP | DURABLE_WRITES | EACH_QUORUM | ENTRIES
  | EXECUTE | EXISTS | FALSE | FILTERING | FINALFUNC | FROM | FULL | FUNCTION | FUNCTIONS | GRANT
  | IF | IN | INDEX | INFINITY | INITCOND | INPUT | INSERT | INTO | IS | KEY | KEYS | KEYSPACE
  | KEYSPACES | LANGUAGE | LEVEL | LIMIT | LOCAL_ONE | LOCAL_QUORUM | LOGGED | LOGIN
  | MATERIALIZED | MODIFY | NAN | NORECURSIVE | NOSUPERUSER | NOT | NULL | OF | ON | ONE | OPTIONS
  | OR | ORDER | PARTITION | PASSWORD | PER | PERMISSION | PERMISSIONS | PRIMARY | QUORUM | RENAME
  | REPLACE | REPLICATION | RETURNS | REVOKE | ROLE | ROLES | SCHEMA | SELECT | SET | SFUNC
  | STATIC | STORAGE | STYPE | SUPERUSER | TABLE | THREE | TIMESTAMP | TO | TOKEN | TRIGGER | TRUE
  | TRUNCATE | TTL | TWO | TYPE | UNLOGGED | UPDATE | USE | USER | USING | UUID | VALUES | VIEW
  | WHERE | WITH | WRITETIME | ASCII | BIGINT | BLOB | BOOLEAN | COUNTER | DATE | DECIMAL | DOUBLE
  | FLOAT | FROZEN | INET | INT | LIST | MAP | SMALLINT | TEXT | TIMEUUID | TIME | TINYINT | TUPLE
  | VARCHAR | VARINT | USERS
deriving DecidableEq

namespace Keyword

def word : Keyword → String
  | .ADD => "ADD" | .AGGREGATE => "AGGREGATE" | .ALL => "ALL" | .ALLOW => "ALLOW"
  | .ALTER => "ALTER" | .AND => "AND" | .ANY => "ANY" | .APPLY => "APPLY" | .AS => "AS"
  | .ASC => "ASC" | .AUTHORIZE => "AUTHORIZE" | .BATCH => "BATCH" | .BEGIN => "BEGIN"
  | .BY => "BY" | .CALLED => "CALLED" | .CLUSTERING => "CLUSTERING"
  | .COLUMNFAMILY => "COLUMNFAMILY" | .COMPACT => "COMPACT" | .CONSISTENCY => "CONSISTENCY"
  | .CONTAINS => "CONTAINS" | .CREATE => "CREATE" | .CUSTOM => "CUSTOM" | .DELETE => "DELETE"
  | .DESC => "DESC" | .DESCRIBE => "DESCRIBE" | .DISTINCT => "DISTINCT" | .DROP => "DROP"
  | .DURABLE_WRITES => "DURABLE_WRITES" | .EACH_QUORUM => "EACH_QUORUM" | .ENTRIES => "ENTRIES"
  | .EXECUTE => "EXECUTE" | .EXISTS => "EXISTS" | .FALSE => "FALSE" | .FILTERING => "FILTERING"
  | .FINALFUNC => "FINALFUNC" | .FROM => "FROM" | .FULL => "FULL" | .FUNCTION => "FUNCTION"
  | .FUNCTIONS => "FUNCTIONS" | .GRANT => "GRANT" | .IF => "IF" | .IN => "IN" | .INDEX => "INDEX"
  | .INFINITY => "INFINITY" | .INITCOND => "INITCOND" | .INPUT => "INPUT" | .INSERT => "INSERT"
  | .INTO => "INTO" | .IS => "IS" | .KEY => "KEY" | .KEYS => "KEYS" | .KEYSPACE => "KEYSPACE"
  | .KEYSPACES => "KEYSPACES" | .LANGUAGE => "LANGUAGE" | .LEVEL => "LEVEL" | .LIMIT => "LIMIT"
  | .LOCAL_ONE => "LOCAL_ONE" | .LOCAL_QUORUM => "LOCAL_QUORUM" | .LOGGED => "LOGGED"
  | .LOGIN => "LOGIN" | .MATERIALIZED => "MATERIALIZED" | .MODIFY => "MODIFY" | .NAN => "NAN"
  | .NORECURSIVE => "NORECURSIVE" | .NOSUPERUSER => "NOSUPERUSER" | .NOT => "NOT"
  | .NULL => "NULL" | .OF => "OF" | .ON => "ON" | .ONE => "ONE" | .OPTIONS => "OPTIONS"
  | .OR => "OR" | .ORDER => "ORDER" | .PARTITION => "PARTITION" | .PASSWORD => "PASSWORD"
  | .PER => "PER" | .PERMISSION => "PERMISSION" | .PERMISSIONS => "PERMISSIONS"
  | .PRIMARY => "PRIMARY" | .QUORUM => "QUORUM" | .RENAME => "RENAME" | .REPLACE => "REPLACE"
  | .REPLICATION => "REPLICATION" | .RETURNS => "RETURNS" | .REVOKE => "REVOKE" | .ROLE => "ROLE"
  | .ROLES => "ROLES" | .SCHEMA => "SCHEMA" | .SELECT => "SELECT" | .SET => "SET"
  | .SFUNC => "SFUNC" | .STATIC => "STATIC" | .STORAGE => "STORAGE" | .STYPE => "STYPE"
  | .SUPERUSER => "SUPERUSER" | .TABLE => "TABLE" | .THREE => "THREE" | .TIMESTAMP => "TIMESTAMP"
  | .TO => "TO" | .TOKEN => "TOKEN" | .TRIGGER => "TRIGGER" | .TRUE => "TRUE"
  | .TRUNCATE => "TRUNCATE" | .TTL => "TTL" | .TWO => "TWO" | .TYPE => "TYPE"
  | .UNLOGGED => "UNLOGGED" | .UPDATE => "UPDATE" | .USE => "USE" | .USER => "USER"
  | .USING => "USING" | .UUID => "UUID" | .VALUES => "VALUES" | .VIEW => "VIEW"
  | .WHERE => "WHERE" | .WITH => "WITH" | .WRITETIME => "WRITETIME" | .ASCII => "ASCII"
  | .BIGINT => "BIGINT" | .BLOB => "BLOB" | .BOOLEAN => "BOOLEAN" | .COUNTER => "COUNTER"
  | .DATE => "DATE" | .DECIMAL => "DECIMAL" | .DOUBLE => "DOUBLE" | .FLOAT => "FLOAT"
  | .FROZEN => "FROZEN" | .INET => "INET" | .INT => "INT" | .LIST => "LIST" | .MAP => "MAP"
  | .SMALLINT => "SMALLINT" | .TEXT => "TEXT" | .TIMEUUID => "TIMEUUID" | .TIME => "TIME"
  | .TINYINT => "TINYINT" | .TUPLE => "TUPLE" | .VARCHAR => "VARCHAR" | .VARINT => "VARINT"
  | .USERS => "USERS"

/-- The name a token of this keyword is reported under. -/
def tag : Keyword → String
  | .ADD => "Add" | .AGGREGATE => "Aggregate" | .ALL => "All" | .ALLOW => "Allow"
  | .ALTER => "Alter" | .AND => "And" | .ANY => "Any" | .APPLY => "Apply" | .AS => "As"
  | .ASC => "Asc" | .AUTHORIZE => "Authorize" | .BATCH => "Batch" | .BEGIN => "Begin"
  | .BY => "By" | .CALLED => "Called" | .CLUSTERING => "Clustering"
  | .COLUMNFAMILY => "ColumnFamily" | .COMPACT => "Compact" | .CONSISTENCY => "Consistency"
  | .CONTAINS => "Contains" | .CREATE => "Create" | .CUSTOM => "Custom" | .DELETE => "Delete"
  | .DESC => "Desc" | .DESCRIBE => "Describe" | .DISTINCT => "Distinct" | .DROP => "Drop"
  | .DURABLE_WRITES => "DurableWrites" | .EACH_QUORUM => "EachQuorum" | .ENTRIES => "Entries"
  | .EXECUTE => "Execute" | .EXISTS => "Exists" | .FALSE => "False" | .FILTERING => "Filtering"
  | .FINALFUNC => "FinalFunc" | .FROM => "From" | .FULL => "Full" | .FUNCTION => "Function"
  | .FUNCTIONS => "Functions" | .GRANT => "Grant" | .IF => "If" | .IN => "In" | .INDEX => "Index"
  | .INFINITY => "Infinity" | .INITCOND => "InitCond" | .INPUT => "Input" | .INSERT => "Insert"
  | .INTO => "Into" | .IS => "Is" | .KEY => "Key" | .KEYS => "Keys" | .KEYSPACE => "Keyspace"
  | .KEYSPACES => "Keyspaces" | .LANGUAGE => "Language" | .LEVEL => "Level" | .LIMIT => "Limit"
  | .LOCAL_ONE => "LocalOne" | .LOCAL_QUORUM => "LocalQuorum" | .LOGGED => "Logged"
  | .LOGIN => "Login" | .MATERIALIZED => "Materialized" | .MODIFY => "Modify" | .NAN => "NaN"
  | .NORECURSIVE => "NoRecursive" | .NOSUPERUSER => "NoSuperuser" | .NOT => "Not"
  | .NULL => "Null" | .OF => "Of" | .ON => "On" | .ONE => "One" | .OPTIONS => "Options"
  | .OR => "Or" | .ORDER => "Order" | .PARTITION => "Partition" | .PASSWORD => "Password"
  | .PER => "Per" | .PERMISSION => "Permission" | .PERMISSIONS => "Permissions"
  | .PRIMARY => "Primary" | .QUORUM => "Quorum" | .RENAME => "Rename" | .REPLACE => "Replace"
  | .REPLICATION => "Replication" | .RETURNS => "Returns" | .REVOKE => "Revoke" | .ROLE => "Role"
  | .ROLES => "Roles" | .SCHEMA => "Schema" | .SELECT => "Select" | .SET => "Set"
  | .SFUNC => "SFunc" | .STATIC => "Static" | .STORAGE => "Storage" | .STYPE => "SType"
  | .SUPERUSER => "Superuser" | .TABLE => "Table" | .THREE => "Three" | .TIMESTAMP => "Timestamp"
  | .TO => "To" | .TOKEN => "Token" | .TRIGGER => "Trigger" | .TRUE => "True"
  | .TRUNCATE => "Truncate" | .TTL => "Ttl" | .TWO => "Two" | .TYPE => "Type"
  | .UNLOGGED => "Unlogged" | .UPDATE => "Update" | .USE => "Use" | .USER => "User"
  | .USING => "Using" | .UUID => "Uuid" | .VALUES => "Values" | .VIEW => "View"
  | .WHERE => "Where" | .WITH => "With" | .WRITETIME => "WriteTime" | .ASCII => "Ascii"
  | .BIGINT => "BigInt" | .BLOB => "Blob" | .BOOLEAN => "Boolean" | .COUNTER => "Counter"
  | .DATE => "Date" | .DECIMAL => "Decimal" | .DOUBLE => "Double" | .FLOAT => "Float"
  | .FROZEN => "Frozen" | .INET => "Inet" | .INT => "Int" | .LIST => "List" | .MAP => "Map"
  | .SMALLINT => "SmallInt" | .TEXT => "Text" | .TIMEUUID => "TimeUuid" | .TIME => "Time"
  | .TINYINT => "TinyInt" | .TUPLE => "Tuple" | .VARCHAR => "Varchar" | .VARINT => "VarInt"
  | .USERS => "Users"

/-- Every keyword, in the order of the language's own list. -/
def all : List Keyword := [
  .ADD, .AGGREGATE, .ALL, .ALLOW, .ALTER, .AND, .ANY, .APPLY, .AS, .ASC, .AUTHORIZE, .BATCH,
  .BEGIN, .BY, .CALLED, .CLUSTERING, .COLUMNFAMILY, .COMPACT, .CONSISTENCY, .CONTAINS, .CREATE,
  .CUSTOM, .DELETE, .DESC, .DESCRIBE, .DISTINCT, .DROP, .DURABLE_WRITES, .EACH_QUORUM, .ENTRIES,
  .EXECUTE, .EXISTS, .FALSE, .FILTERING, .FINALFUNC, .FROM, .FULL, .FUNCTION, .FUNCTIONS, .GRANT,
  .IF, .IN, .INDEX, .INFINITY, .INITCOND, .INPUT, .INSERT, .INTO, .IS, .KEY, .KEYS, .KEYSPACE,
  .KEYSPACES, .LANGUAGE, .LEVEL, .LIMIT, .LOCAL_ONE, .LOCAL_QUORUM, .LOGGED, .LOGIN,
  .MATERIALIZED, .MODIFY, .NAN, .NORECURSIVE, .NOSUPERUSER, .NOT, .NULL, .OF, .ON, .ONE, .OPTIONS,
  .OR, .ORDER, .PARTITION, .PASSWORD, .PER, .PERMISSION, .PERMISSIONS, .PRIMARY, .QUORUM, .RENAME,
  .REPLACE, .REPLICATION, .RETURNS, .REVOKE, .ROLE, .ROLES, .SCHEMA, .SELECT, .SET, .SFUNC,
  .STATIC, .STORAGE, .STYPE, .SUPERUSER, .TABLE, .THREE, .TIMESTAMP, .TO, .TOKEN, .TRIGGER, .TRUE,
  .TRUNCATE, .TTL, .TWO, .TYPE, .UNLOGGED, .UPDATE, .USE, .USER, .USING, .UUID, .VALUES, .VIEW,
  .WHERE, .WITH, .WRITETIME, .ASCII, .BIGINT, .BLOB, .BOOLEAN, .COUNTER, .DATE, .DECIMAL, .DOUBLE,
  .FLOAT, .FROZEN, .INET, .INT, .LIST, .MAP, .SMALLINT, .TEXT, .TIMEUUID, .TIME, .TINYINT, .TUPLE,
  .VARCHAR, .VARINT, .USERS]

/-- The length of `DURABLE_WRITES`; no keyword is longer. -/
def maxLength : Nat := 14

/-- The keyword that a whole word spells when the case of ASCII letters is ignored. -/
def ofWord? (w : List Char) : Option Keyword :=
  if w.length ≤ maxLength ∧ w.all fun c => c.toNat < 128 then
    all.find? fun k => k.word.toList = w.map Char.toUpper
  else none

def isReserved (w : List Char) : Bool := (ofWord? w).isSome

end Keyword
end Cql
