import SchemaChange.Dialect.Basic
import SchemaChange.Script.Scan

/-!
# Batches

The text between two separators is a batch, trimmed; a blank one is none. Comments are
left out on request, which moves no separator. Every dialect has its own ranges.
-/
namespace SchemaChange.Script

/-- A unit of a script that is run by itself. -/
structure Batch where
  sql : String
  kind : BatchKind
  deriving DecidableEq

def Batch.repeatCount (b : Batch) : Nat := b.kind.repeatCount

/-- The texts of one batch with their ranges, and how it ends. -/
structure Part where
  texts : List (List Char × Option Range)
  kind : BatchKind

namespace Part

/-- The text of a part, perhaps without its comments. -/
def chars (stripComments : Bool) (p : Part) : List Char :=
  p.texts.flatMap fun (chars, range) =>
    if stripComments && range.any Range.isComment then [] else chars

/-- The batch of a part that is not blank. -/
def batch? (stripComments : Bool) (p : Part) : Option Batch :=
  match Text.trimmed (p.chars stripComments) with
  | [] => none
  | sql => some ⟨String.ofList sql, p.kind⟩

end Part

/-- The first part of a sequence of events, and the others; the last part ends with the
script. -/
def parts : List Event → Part × List Part
  | [] => (⟨[], .statement⟩, [])
  | .text chars range :: es =>
      let (first, others) := parts es
      ({ first with texts := (chars, range) :: first.texts }, others)
  | .cut _ kind :: es =>
      let (first, others) := parts es
      (⟨[], kind⟩, first :: others)

namespace Splitter

/-- The batches of a script in order. -/
def split (sp : Splitter) (script : String) : List Batch :=
  let (first, others) := parts (scan sp script.toList)
  (first :: others).filterMap (Part.batch? sp.stripComments)

def withStripComments (sp : Splitter) (stripComments : Bool) : Splitter :=
  { sp with stripComments }

end Splitter

/-- A range that is delimited by the same quote on both sides. -/
def quotedBy (c : Char) : Range := .doubled (Code.of c []) (Code.of c [])

def singleQuoted : Range := quotedBy '\x27'

def doubleQuoted : Range := quotedBy '"'

def dashComment : Range := .lineComment (Code.of '-' ['-']) false

def blockComment : Range := .plain (Code.of '/' ['*']) (Code.of '*' ['/']) true

def nestingComment : Range := .nesting (Code.of '/' ['*']) (Code.of '*' ['/'])

def dollarQuoted : Range := .plain (Code.of '$' ['$']) (Code.of '$' ['$']) false

end SchemaChange.Script

namespace SchemaChange

open Script

/-- The splitter of a dialect. -/
def Dialect.splitter : Dialect → Splitter
  | sqlServer => {
      separator := .go
      ranges := [singleQuoted, doubleQuoted, .doubled (Code.of '[' []) (Code.of ']' []),
        dashComment, nestingComment] }
  | sqlite => {
      separator := .go
      ranges := [singleQuoted, doubleQuoted, .plain (Code.of '[' []) (Code.of ']' []) false,
        dashComment, blockComment] }
  | oracle => {
      separator := .blocks
      ranges := [singleQuoted, .plain (Code.of '"' []) (Code.of '"' []) false, dashComment,
        blockComment] }
  | postgres => {
      separator := .semicolon
      ranges := [singleQuoted, doubleQuoted, dollarQuoted, dashComment, nestingComment] }
  | mySql => {
      separator := .semicolon
      ranges := [singleQuoted, doubleQuoted, quotedBy '\x60', dashComment,
        .lineComment (Code.of '#' []) false, blockComment] }
  | hana => {
      separator := .semicolon
      ranges := [singleQuoted, doubleQuoted, dashComment, blockComment] }
  | snowflake => {
      separator := .semicolon
      ranges := [singleQuoted, doubleQuoted, dollarQuoted, dashComment,
        .lineComment (Code.of '/' ['/']) false, blockComment] }

end SchemaChange
