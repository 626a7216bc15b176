import SchemaChange.Calendar.Basic
import SchemaChange.Model.Guid
import SchemaChange.Number.Binary64

/-!
# Literal values

The values that a change writes into the database. Statements carry no parameters, so
every value is spelled out in the SQL.
-/
namespace SchemaChange

/-- A database function whose spelling differs between dialects. -/
inductive SystemMethod where
  | newGuid
  | newSequentialId
  | currentDateTime
  | currentDateTimeOffset
  | currentUtcDateTime
  | currentUser
  deriving DecidableEq, Repr

namespace SystemMethod

def all : List SystemMethod :=
  [newGuid, newSequentialId, currentDateTime, currentDateTimeOffset, currentUtcDateTime,
    currentUser]

/-- The name used in messages. -/
def displayName : SystemMethod → String
  | newGuid => "NewGuid"
  | newSequentialId => "NewSequentialId"
  | currentDateTime => "CurrentDateTime"
  | currentDateTimeOffset => "CurrentDateTimeOffset"
  | currentUtcDateTime => "CurrentUTCDateTime"
  | currentUser => "CurrentUser"

/-- The name used in documents. -/
def code : SystemMethod → String
  | newGuid => "new_guid"
  | newSequentialId => "new_sequential_id"
  | currentDateTime => "current_date_time"
  | currentDateTimeOffset => "current_date_time_offset"
  | currentUtcDateTime => "current_utc_date_time"
  | currentUser => "current_user"

def ofCode? (s : String) : Option SystemMethod := all.find? fun m => m.code == s

end SystemMethod

/-- A value to be written as a SQL literal. -/
inductive Literal where
  | null
  | string (s : String)
  | char (c : Char)
  | bool (b : Bool)
  | int (i : Int64)
  | uint (n : UInt64)
  | float (x : Binary64)
  | guid (g : Guid)
  | date (d : Date)
  | dateTime (t : DateTime)
  | dateTimeOffset (t : OffsetDateTime)
  /-- The name of a member of an enumeration, stored as text. -/
  | enum (member : String)
  | binary (bytes : List UInt8)
  | systemMethod (m : SystemMethod)
  /-- SQL that is written as it is. -/
  | function (sql : String)
  deriving DecidableEq

/-- Only the literal NULL; a default of NULL differs from no default. -/
def Literal.isNull : Literal → Bool
  | .null => true
  | _ => false

end SchemaChange
