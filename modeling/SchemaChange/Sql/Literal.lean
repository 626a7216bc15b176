import SchemaChange.Calendar.Text
import SchemaChange.Error
import SchemaChange.Number.Text
import SchemaChange.Sql.Piece

/-!
# Literals in SQL

How every dialect spells a value. Two values have no spelling: a number that is not
finite, and a system method that the dialect lacks.
-/
namespace SchemaChange

namespace Dialect

def boolLiteral : Dialect → Bool → String
  | postgres, true => "true"
  | postgres, false => "false"
  | hana, true | snowflake, true => "TRUE"
  | hana, false | snowflake, false => "FALSE"
  | _, true => "1"
  | _, false => "0"

/-- A text of the library's own between single quotes; it holds no quote itself. -/
def quotedCode (cs : List Char) : String := String.ofList ('\x27' :: (cs ++ ['\x27']))

def guidLiteral (d : Dialect) (g : Guid) : String :=
  match d with
  | oracle => "HEXTORAW(" ++ quotedCode (g.plain.map Char.toUpper) ++ ")"
  | _ => quotedCode g.hyphenated

def dateLiteral (d : Dialect) (date : Date) : String :=
  match d with
  | oracle => "to_date(" ++ quotedCode date.text ++ ", 'yyyy-mm-dd')"
  | _ => quotedCode date.text

def dateTimeLiteral (d : Dialect) (t : DateTime) : String :=
  match d with
  | sqlServer => quotedCode (t.textWith 'T' ++ t.fractionText)
  | oracle => "to_date(" ++ quotedCode (t.textWith ' ') ++ ", 'yyyy-mm-dd hh24:mi:ss')"
  | _ => quotedCode (t.textWith ' ' ++ t.fractionText)

def dateTimeOffsetLiteral (d : Dialect) (t : OffsetDateTime) : String :=
  let clock := t.timeOfDay
  match d with
  | sqlServer =>
      quotedCode (clock.textWith 'T' ++ clock.fractionText ++ offsetText t.offset)
  | oracle =>
      "to_timestamp_tz(" ++
        quotedCode (clock.textWith ' ' ++ clock.microsecondText ++
          ' ' :: offsetText t.offset) ++
        ", 'YYYY-MM-DD HH24:MI:SS.FF6 TZH:TZM')"
  | _ => quotedCode (clock.textWith ' ' ++ clock.fractionText ++ offsetText t.offset)

def binaryLiteral (d : Dialect) (bytes : List UInt8) : String :=
  let digits := bytes.flatMap Text.hexByte
  match d with
  | sqlServer => "0x" ++ String.ofList digits
  | postgres => quotedCode ('\\' :: 'x' :: digits) ++ "::bytea"
  | oracle => "HEXTORAW(" ++ quotedCode digits ++ ")"
  | snowflake => "TO_BINARY(" ++ quotedCode digits ++ ", 'HEX')"
  | mySql | sqlite | hana => "X" ++ quotedCode digits

/-- The spelling of a system method, where the dialect has one. -/
def systemMethod? : Dialect → SystemMethod → Option String
  | sqlServer, .newGuid => some "NEWID()"
  | sqlServer, .newSequentialId => some "NEWSEQUENTIALID()"
  | sqlServer, .currentDateTime => some "GETDATE()"
  | sqlServer, .currentDateTimeOffset => some "SYSDATETIMEOFFSET()"
  | sqlServer, .currentUtcDateTime => some "GETUTCDATE()"
  | sqlServer, .currentUser => some "CURRENT_USER"
  | postgres, .newGuid | postgres, .newSequentialId => some "uuid_generate_v4()"
  | postgres, .currentDateTime => some "now()"
  | postgres, .currentUtcDateTime => some "(now() at time zone 'UTC')"
  | postgres, .currentDateTimeOffset => some "current_timestamp"
  | postgres, .currentUser => some "current_user"
  | mySql, .newGuid => some "(SELECT UUID())"
  | mySql, .currentDateTime => some "CURRENT_TIMESTAMP"
  | mySql, .currentUtcDateTime => some "UTC_TIMESTAMP"
  | mySql, .currentUser => some "CURRENT_USER()"
  | oracle, .newGuid | oracle, .newSequentialId => some "sys_guid()"
  | oracle, .currentDateTime => some "LOCALTIMESTAMP"
  | oracle, .currentUtcDateTime => some "sys_extract_utc(SYSTIMESTAMP)"
  | oracle, .currentDateTimeOffset => some "CURRENT_TIMESTAMP"
  | oracle, .currentUser => some "USER"
  | sqlite, .currentDateTime => some "(datetime('now','localtime'))"
  | sqlite, .currentUtcDateTime => some "(datetime('now'))"
  | hana, .newGuid | hana, .newSequentialId => some "SYSUUID"
  | hana, .currentDateTime => some "CURRENT_TIMESTAMP"
  | hana, .currentUtcDateTime => some "CURRENT_UTCTIMESTAMP"
  | hana, .currentUser => some "CURRENT_USER"
  | snowflake, .newGuid => some "UUID_STRING()"
  | snowflake, .currentDateTime | snowflake, .currentDateTimeOffset =>
      some "CURRENT_TIMESTAMP"
  | snowflake, .currentUtcDateTime => some "SYSDATE()"
  | snowflake, .currentUser => some "CURRENT_USER"
  | _, _ => none

/-- The spelling of a system method, or the failure to have one. -/
def systemMethod (d : Dialect) (m : SystemMethod) : Except Error String :=
  match d.systemMethod? m with
  | some sql => .ok sql
  | none => .error (.noSystemMethod d m)

end Dialect

/-- A value as SQL. -/
def Literal.sql (d : Dialect) : Literal → Except Error Sql
  | null => .ok "NULL"
  | string s | enum s => .ok (Sql.text s)
  | char c => .ok (Sql.text (String.singleton c))
  | bool b => .ok (d.boolLiteral b)
  | int i => .ok (toString i.toInt)
  | uint n => .ok (toString n.toNat)
  | float x =>
      if x.isFinite then .ok x.toPlain else .error (.invalid (.notFinite x.toPlain))
  | guid g => .ok (d.guidLiteral g)
  | date day => .ok (d.dateLiteral day)
  | dateTime t => .ok (d.dateTimeLiteral t)
  | dateTimeOffset t => .ok (d.dateTimeOffsetLiteral t)
  | binary bytes => .ok (d.binaryLiteral bytes)
  | systemMethod m => do return ← d.systemMethod m
  | function sql => .ok (Sql.verbatim sql)

end SchemaChange
