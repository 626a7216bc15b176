import SchemaChange.Model.Literal

/-!
# Columns

Portable column types and the definition of a column. A definition is plain data; every
setter returns a changed copy.
-/
namespace SchemaChange

/-- A column type that every dialect spells in its own way. -/
inductive DbType where
  | ansiString
  | ansiStringFixedLength
  | binary
  | boolean
  | byte
  | currency
  | date
  | dateTime
  | dateTime2
  | dateTimeOffset
  | decimal
  | double
  | guid
  | int16
  | int32
  | int64
  | sbyte
  | single
  | string
  | stringFixedLength
  | time
  | uint16
  | uint32
  | uint64
  | xml
  deriving DecidableEq, Repr

namespace DbType

def all : List DbType :=
  [ansiString, ansiStringFixedLength, binary, boolean, byte, currency, date, dateTime,
    dateTime2, dateTimeOffset, decimal, double, guid, int16, int32, int64, sbyte, single,
    string, stringFixedLength, time, uint16, uint32, uint64, xml]

/-- The name used in messages and documents. -/
def code : DbType → String
  | ansiString => "AnsiString"
  | ansiStringFixedLength => "AnsiStringFixedLength"
  | binary => "Binary"
  | boolean => "Boolean"
  | byte => "Byte"
  | currency => "Currency"
  | date => "Date"
  | dateTime => "DateTime"
  | dateTime2 => "DateTime2"
  | dateTimeOffset => "DateTimeOffset"
  | decimal => "Decimal"
  | double => "Double"
  | guid => "Guid"
  | int16 => "Int16"
  | int32 => "Int32"
  | int64 => "Int64"
  | sbyte => "SByte"
  | single => "Single"
  | string => "String"
  | stringFixedLength => "StringFixedLength"
  | time => "Time"
  | uint16 => "UInt16"
  | uint32 => "UInt32"
  | uint64 => "UInt64"
  | xml => "Xml"

def ofCode? (s : String) : Option DbType := all.find? fun t => t.code == s

end DbType

/-- The definition of a column. -/
structure Column where
  name : String
  dbType : Option DbType := none
  /-- A native type, written as it is; it wins over `dbType`. -/
  customType : Option String := none
  size : Option UInt32 := none
  precision : Option UInt32 := none
  /-- Without a word on it, a column rejects NULL. -/
  nullable : Option Bool := none
  defaultValue : Option Literal := none
  isIdentity : Bool := false
  isPrimaryKey : Bool := false
  primaryKeyName : Option String := none
  collation : Option String := none
  description : Option String := none
  /-- The value that existing rows receive before NULL is forbidden. -/
  existingRows : Option Literal := none
  deriving DecidableEq

namespace Column

/-- A column of a portable type. -/
def ofType (name : String) (dbType : DbType) : Column := { name, dbType }

/-- A column of a native type. -/
def ofCustomType (name customType : String) : Column := { name, customType }

def withSize (c : Column) (size : UInt32) : Column := { c with size }

def withPrecision (c : Column) (precision : UInt32) : Column := { c with precision }

def withNullable (c : Column) (nullable : Bool) : Column := { c with nullable }

def withDefault (c : Column) (value : Literal) : Column := { c with defaultValue := value }

def asIdentity (c : Column) : Column := { c with isIdentity := true }

def asPrimaryKey (c : Column) : Column := { c with isPrimaryKey := true }

/-- Make a column part of the primary key and name the key's constraint. -/
def asPrimaryKeyNamed (c : Column) (name : String) : Column :=
  { c with isPrimaryKey := true, primaryKeyName := name }

def withCollation (c : Column) (collation : String) : Column := { c with collation }

def withDescription (c : Column) (description : String) : Column := { c with description }

def withExistingRows (c : Column) (value : Literal) : Column := { c with existingRows := value }

/-- Whether the column rejects NULL. -/
def isNotNull (c : Column) : Bool := c.nullable != some true

end Column

end SchemaChange
