import SchemaChange.Proofs.Script.LineScan

/-!
# Pieces of a script

The batches of a script when its comments are kept: the text that has gathered since the
last separator is a piece, and every piece that is not blank becomes a batch.
-/
namespace SchemaChange.Script

/-- A piece of a script with the separator behind it. -/
structure Cut where
  piece : List Char
  separator : List Char
  kind : BatchKind

def Cut.text (cut : Cut) : List Char := cut.piece ++ cut.separator

/-- Trim a piece to a batch, unless it is blank. -/
def batchOf? (piece : List Char) (kind : BatchKind) : Option Batch :=
  match Text.trimmed piece with
  | [] => none
  | sql => some ⟨String.ofList sql, kind⟩

theorem batchOf?_of_not_blank {s : String} (h : Text.allBlank s = false) :
    batchOf? s.toList .statement = some ⟨Text.trim s, .statement⟩ := by
  rw [batchOf?]
  split
  · exact absurd ‹_› (Text.trimmed_ne_nil h)
  · rfl

theorem batchOf?_of_trimmed {piece sql : List Char} (h : Text.trimmed piece = sql)
    (hne : sql ≠ []) (kind : BatchKind) :
    batchOf? piece kind = some ⟨String.ofList sql, kind⟩ := by
  rw [batchOf?, h]
  split
  · exact absurd rfl hne
  · rfl

/-- The cuts of a sequence of events and the piece behind the last one, when some text has
gathered already. -/
def pieces (gathered : List Char) : List Event → List Cut × List Char
  | [] => ([], gathered)
  | .text chars _ :: es => pieces (gathered ++ chars) es
  | .cut separator kind :: es =>
      let (cuts, last) := pieces [] es
      (⟨gathered, separator, kind⟩ :: cuts, last)

@[simp] theorem pieces_text (gathered cs : List Char) (range : Option Range)
    (es : List Event) : pieces gathered (.text cs range :: es) = pieces (gathered ++ cs) es :=
  rfl

@[simp] theorem pieces_cut (gathered separator : List Char) (kind : BatchKind)
    (es : List Event) : pieces gathered (.cut separator kind :: es) =
      (⟨gathered, separator, kind⟩ :: (pieces [] es).1, (pieces [] es).2) := rfl

/-- All characters are in the pieces and separators, in order. -/
theorem pieces_chars (gathered : List Char) (es : List Event) :
    (pieces gathered es).1.flatMap Cut.text ++ (pieces gathered es).2 =
      gathered ++ es.flatMap Event.chars := by
  induction es generalizing gathered with
  | nil => simp [pieces]
  | cons e es ih =>
      cases e with
      | text cs range => simp [ih, Event.chars]
      | cut separator kind => simp [ih, Event.chars, Cut.text]

/-- The batches of cut pieces and of a last piece. -/
def batches (cuts : List Cut) (last : List Char) : List Batch :=
  cuts.filterMap (fun cut => batchOf? cut.piece cut.kind) ++
    (batchOf? last .statement).toList

@[simp] theorem batches_nil (last : List Char) :
    batches [] last = (batchOf? last .statement).toList := rfl

@[simp] theorem batches_cons (cut : Cut) (cuts : List Cut) (last : List Char) :
    batches (cut :: cuts) last =
      (batchOf? cut.piece cut.kind).toList ++ batches cuts last := by
  cases h : batchOf? cut.piece cut.kind <;> simp [batches, h]

/-- Cuts that all end statements leave pieces of one sort. -/
theorem batches_of_statements {cuts : List Cut} (h : ∀ cut ∈ cuts, cut.kind = .statement)
    (last : List Char) : batches cuts last =
      (cuts.map Cut.piece ++ [last]).filterMap (batchOf? · .statement) := by
  induction cuts with
  | nil => cases hlast : batchOf? last .statement <;> simp [hlast]
  | cons cut cuts ih =>
      rw [batches_cons, ih fun c hc => h c (List.mem_cons_of_mem _ hc),
        h cut (List.mem_cons_self ..)]
      cases hcut : batchOf? cut.piece .statement <;> simp [hcut]

theorem filterMap_batch?_cons (strip : Bool) (p : Part) (ps : List Part) :
    (p :: ps).filterMap (Part.batch? strip) =
      (batchOf? (p.chars strip) p.kind).toList ++ ps.filterMap (Part.batch? strip) := by
  have hbatch : p.batch? strip = batchOf? (p.chars strip) p.kind := rfl
  rw [List.filterMap_cons, hbatch]
  cases batchOf? (p.chars strip) p.kind <;> rfl

/-- The parts of a sequence of events are its pieces; gathered text goes to the first. -/
theorem filterMap_parts (gathered : List Char) (es : List Event) :
    (batchOf? (gathered ++ (parts es).1.chars false) (parts es).1.kind).toList ++
        (parts es).2.filterMap (Part.batch? false) =
      batches (pieces gathered es).1 (pieces gathered es).2 := by
  induction es generalizing gathered with
  | nil => simp [parts, pieces, Part.chars]
  | cons e es ih =>
      cases e with
      | text cs range =>
          have := ih (gathered ++ cs)
          simpa [parts, Part.chars, List.append_assoc] using this
      | cut separator kind =>
          have := ih []
          rw [List.nil_append, ← filterMap_batch?_cons] at this
          rw [pieces_cut, batches_cons, ← this]
          simp [parts, Part.chars]

/-- The pieces of a script. -/
def scanPieces (sp : Splitter) (script : List Char) : List Cut × List Char :=
  pieces [] (scan sp script)

/-- With comments kept, the batches are the pieces that are not blank. -/
theorem split_eq_batches (sp : Splitter) (hs : sp.stripComments = false) (script : String) :
    sp.split script =
      batches (scanPieces sp script.toList).1 (scanPieces sp script.toList).2 := by
  rw [scanPieces, ← filterMap_parts, Splitter.split, hs, List.nil_append]
  exact filterMap_batch?_cons ..

end SchemaChange.Script
