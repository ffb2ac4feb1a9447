/-!
# The reserved words

The words of the dialect, grouped by use.  Their order fixes the codes of the keyword tokens, so
a new word may only be added at the end.
-/

namespace SqlLexer

namespace ReservedWord

def queryWords : List String :=
  ["select", "insert", "update", "delete", "from", "where", "group", "having", "order", "by",
    "limit", "for"]

def setOperationWords : List String :=
  ["union", "all", "minus", "except", "intersect"]

def joinWords : List String :=
  ["join", "full", "straight_join", "left", "right", "inner", "outer", "cross", "natural",
    "use", "force", "on", "into"]

def expressionWords : List String :=
  ["distinct", "case", "when", "then", "else", "end", "as", "and", "or", "not", "exists", "in",
    "is", "like", "between", "null", "asc", "desc", "values", "duplicate", "key", "default",
    "set", "lock"]

def definitionWords : List String :=
  ["create", "alter", "rename", "drop", "table", "index", "view", "to", "ignore", "if",
    "unique", "fulltext", "btree", "hash"]

def typeWords : List String :=
  ["bit", "tinyint", "bool", "boolean", "smallint", "mediumint", "int", "integer", "bigint",
    "real", "double", "float", "decimal", "date", "time", "timestamp", "datetime", "year",
    "char", "nchar", "varchar", "nvarchar", "tinytext", "text", "mediumtext", "longtext",
    "varbinary", "tinyblob", "blob", "mediumblob", "longblob"]

def attributeWords : List String :=
  ["enum", "auto_increment", "engine", "primary", "references", "comment", "column_format",
    "fixed", "dynamic", "disk", "memory", "match", "partial", "simple", "restrict", "cascade",
    "no", "action", "unsigned", "zerofill", "constraint", "foreign", "first", "after", "add",
    "column", "change", "modify", "enable", "disable"]

def sessionWords : List String :=
  ["using", "begin", "rollback", "commit", "names", "replace", "start", "transaction",
    "isolation", "level", "repeatable", "read", "committed", "uncommitted", "serializable",
    "collate", "offset", "charset", "character", "collation"]

def administrationWords : List String :=
  ["show", "describe", "explain", "variables", "status", "databases", "database", "tables",
    "columns", "fields", "procedure", "function", "engines", "storage", "plugins", "processlist",
    "indexes", "keys", "triggers", "trigger", "slave", "session", "global", "profiles"]

def functionWords : List String :=
  ["position", "kill", "query", "connection"]

def charsetWords : List String :=
  ["armscii8", "ascii", "big5", "binary", "cp1250", "cp1251", "cp1256", "cp1257", "cp850",
    "cp852", "cp866", "cp932", "dec8", "eucjpms", "euckr", "gb2312", "gbk", "geostd8", "greek",
    "hebrew", "hp8", "keybcs2", "koi8r", "koi8u", "latin1", "latin2", "latin5", "latin7",
    "macce", "macroman", "sjis", "swe7", "tis620", "ucs2", "ujis", "utf16", "utf16le", "utf32",
    "utf8", "utf8mb4"]

def collationWords : List String :=
  ["armscii8_general_ci", "armscii8_bin", "ascii_general_ci", "ascii_bin", "big5_chinese_ci",
    "big5_bin", "cp1250_general_ci", "cp1250_bin", "cp1251_general_ci", "cp1251_general_cs",
    "cp1251_bin", "cp1256_general_ci", "cp1256_bin", "cp1257_general_ci", "cp1257_bin",
    "cp850_general_ci", "cp850_bin", "cp852_general_ci", "cp852_bin", "cp866_general_ci",
    "cp866_bin", "cp932_japanese_ci", "cp932_bin", "dec8_swedish_ci", "dec8_bin",
    "eucjpms_japanese_ci", "eucjpms_bin", "euckr_korean_ci", "euckr_bin", "gb2312_chinese_ci",
    "gb2312_bin", "gbk_chinese_ci", "gbk_bin", "geostd8_general_ci", "geostd8_bin",
    "greek_general_ci", "greek_bin", "hebrew_general_ci", "hebrew_bin", "hp8_english_ci",
    "hp8_bin", "keybcs2_general_ci", "keybcs2_bin", "koi8r_general_ci", "koi8r_bin",
    "koi8u_general_ci", "koi8u_bin", "latin1_general_ci", "latin1_general_cs", "latin1_bin",
    "latin2_general_ci", "latin2_bin", "latin5_turkish_ci", "latin5_bin", "latin7_general_ci",
    "latin7_general_cs", "latin7_bin", "macce_general_ci", "macce_bin", "macroman_general_ci",
    "macroman_bin", "sjis_japanese_ci", "sjis_bin", "swe7_swedish_ci", "swe7_bin",
    "tis620_thai_ci", "tis620_bin", "ucs2_general_ci", "ucs2_unicode_ci", "ucs2_bin",
    "ujis_japanese_ci", "ujis_bin", "utf16_general_ci", "utf16_unicode_ci", "utf16_bin",
    "utf16le_general_ci", "utf16le_bin", "utf32_general_ci", "utf32_unicode_ci", "utf32_bin",
    "utf8_general_ci", "utf8_unicode_ci", "utf8_bin", "utf8mb4_general_ci", "utf8mb4_unicode_ci",
    "utf8mb4_bin"]

/-- All reserved words, in the order of their codes. -/
def all : List String :=
  queryWords ++ setOperationWords ++ joinWords ++ expressionWords ++
    definitionWords ++ typeWords ++ attributeWords ++ sessionWords ++
    administrationWords ++ functionWords ++ charsetWords ++ collationWords

/-- Further spellings that are accepted, each with the reserved word it stands for. -/
def aliases : List (String × String) :=
  [("cp1251_chinese_ci", "cp1251_general_ci"),
    ("cp1251_chinese_cs", "cp1251_general_cs"),
    ("cp1256_chinese_ci", "cp1256_general_ci"),
    ("cp1257_chinese_ci", "cp1257_general_ci"),
    ("cp850_chinese_ci", "cp850_general_ci"),
    ("cp852_chinese_ci", "cp852_general_ci"),
    ("cp866_chinese_ci", "cp866_general_ci")]

theorem canonical_mem_all : ∀ entry ∈ aliases, entry.2 ∈ all := by
  decide +kernel

end ReservedWord

end SqlLexer
